/-
The checks of the key (`check_auth` and `check_viz_auth`).

A request is let in by the key in its header or, for the pages of the dashboard, by a cookie that
`mint_viz_token` has signed with it.  The comparisons are those of `hmac.compare_digest`, which
raises `TypeError` on a string that is not ASCII, and a key that was read from bytes that are not
UTF-8 cannot be encoded.  `auth_exact_iff` says for which keys, headers and cookies the checks let
in whom they should and otherwise raise a 401.
-/
import PalaceDaemon.Lib.PyNumeral

namespace PalaceDaemon.Auth

/-! ### The comparison and the signature -/

/-- What a check can raise. -/
inductive Raised
  | httpException (statusCode : ℕ) (detail : String)
  | typeError
  | unicodeEncodeError
  | valueError
deriving DecidableEq

/-- `HTTPException(status_code=401, detail="Invalid API key")` -/
def unauthorized : Raised := .httpException 401 "Invalid API key"

/-- `s.isascii()` -/
def isAscii (s : PyStr) : Bool := s.all (· < 128)

/-- `hmac.compare_digest` -/
def compareDigest (a b : PyStr) : Except Raised Bool :=
  if isAscii a ∧ isAscii b then .ok (decide (a = b)) else .error .typeError

/-- HMAC-SHA256: the hexadecimal digits for a key and a text. -/
structure Hmac where
  hexdigest : PyStr → PyStr → PyStr
  ascii : ∀ key text, isAscii (hexdigest key text) = true

/-! ### The checks -/

/-- A request that does not pass is refused. -/
def verdict : Except Raised Bool → Except Raised Unit
  | .error e => .error e
  | .ok true => .ok ()
  | .ok false => .error unauthorized

/-- `check_auth`; `key` is `PALACE_API_KEY`, empty where it is unset. -/
def checkAuth (key : PyStr) (xApiKey : Option PyStr) : Except Raised Unit :=
  if key = [] then .ok () else verdict (compareDigest (xApiKey.getD []) key)

/-- `.` -/
def dot : ℕ := '.'.toNat

/-- `mint_viz_token`, at the time `now`. -/
def mintVizToken (hmac : Hmac) (key : PyStr) (now ttl : ℤ) : Except Raised PyStr :=
  if key.encodes then
    match PyStr.strInt (now + ttl) with
    | none => .error .valueError
    | some exp => .ok (exp ++ dot :: hmac.hexdigest key exp)
  else .error .unicodeEncodeError

/-- `token.partition(".")`, without the separator -/
def partition (token : PyStr) : PyStr × PyStr :=
  (token.takeWhile (· ≠ dot), (token.dropWhile (· ≠ dot)).tail)

/-- `valid_viz_token`, at the time `now`. -/
def validVizToken (hmac : Hmac) (key : PyStr) (now : ℤ) (token : Option PyStr) :
    Except Raised Bool :=
  let text := token.getD []
  if key = [] ∨ text = [] ∨ dot ∉ text then .ok false
  else
    let (exp, sig) := partition text
    match PyStr.readInt exp with
    | none => .ok false
    | some n =>
      if n < now then .ok false
      else if key.encodes then compareDigest sig (hmac.hexdigest key exp)
      else .error .unicodeEncodeError

/-- `check_viz_auth`, at the time `now`. -/
def checkVizAuth (hmac : Hmac) (key : PyStr) (now : ℤ) (xApiKey session : Option PyStr) :
    Except Raised Unit :=
  if key = [] then .ok ()
  else
    let header := xApiKey.getD []
    match if header = [] then .ok false else compareDigest header key with
    | .error e => .error e
    | .ok true => .ok ()
    | .ok false => verdict (validVizToken hmac key now session)

/-! ### What the checks should do -/

/-- A token that was minted: when, and for how long. -/
structure Mint where
  now : ℤ
  ttl : ℤ

/-- The cookie is a token that was minted under the key and has not expired. -/
def IsLive (hmac : Hmac) (key : PyStr) (mints : List Mint) (now : ℤ) (session : Option PyStr) :
    Prop :=
  ∃ m ∈ mints, ∃ token, mintVizToken hmac key m.now m.ttl = .ok token ∧ session = some token ∧
    now ≤ m.now + m.ttl

/-- A check lets in just those that it should, and otherwise raises a 401. -/
def Exact (result : Except Raised Unit) (allowed : Prop) : Prop :=
  (result = .ok () ↔ allowed) ∧ ∀ e, result = .error e → e = unauthorized

/-- A signature in the cookie verifies only for the text of an expiry it was made for. -/
def Unforgeable (hmac : Hmac) (key : PyStr) (mints : List Mint) (session : Option PyStr) : Prop :=
  ∀ exp, session = some (exp ++ dot :: hmac.hexdigest key exp) →
    ∃ m ∈ mints, PyStr.strInt (m.now + m.ttl) = some exp

/-! ### Where they do -/

/-- The header can be compared with the key. -/
def HeaderSafe (key : PyStr) (xApiKey : Option PyStr) : Prop :=
  isAscii key = true ∧ isAscii (xApiKey.getD []) = true

/-- The cookie can be checked: if what stands before its first dot is a time that has not passed,
the key can be encoded and the signature is ASCII. -/
def CookieSafe (key : PyStr) (now : ℤ) (session : Option PyStr) : Prop :=
  ∀ n, dot ∈ session.getD [] → PyStr.readInt (partition (session.getD [])).1 = some n → now ≤ n →
    key.encodes = true ∧ isAscii (partition (session.getD [])).2 = true

/-! ### The header -/

section

variable {hmac : Hmac} {key : PyStr} {mints : List Mint} {now : ℤ}
  {xApiKey session : Option PyStr}

lemma compareDigest_of_ascii {a b : PyStr} (ha : isAscii a = true) (hb : isAscii b = true) :
    compareDigest a b = .ok (decide (a = b)) := if_pos ⟨ha, hb⟩

lemma compareDigest_of_not {a b : PyStr} (h : ¬ (isAscii a = true ∧ isAscii b = true)) :
    compareDigest a b = .error .typeError := if_neg h

lemma exact_of_ok {result : Except Raised Unit} {allowed : Prop} (h : result = .ok ())
    (hallowed : allowed) : Exact result allowed :=
  ⟨iff_of_true h hallowed, fun e he => by rw [h] at he; cases he⟩

lemma exact_of_unauthorized {result : Except Raised Unit} {allowed : Prop}
    (h : result = .error unauthorized) (hallowed : ¬ allowed) : Exact result allowed := by
  refine ⟨iff_of_false (by simp [h]) hallowed, fun e he => ?_⟩
  rw [h] at he
  exact (Except.error.inj he).symm

lemma not_exact_of_error {result : Except Raised Unit} {allowed : Prop} {e : Raised}
    (h : result = .error e) (he : e ≠ unauthorized) : ¬ Exact result allowed :=
  fun hexact => he (hexact.2 e h)

lemma getD_eq_key (hkey : key ≠ []) : xApiKey.getD [] = key ↔ xApiKey = some key := by
  cases xApiKey with
  | none => simp [hkey.symm]
  | some header => simp

/-- The check of the header alone. -/
lemma checkAuth_iff :
    Exact (checkAuth key xApiKey) (key = [] ∨ xApiKey = some key) ↔
      key = [] ∨ HeaderSafe key xApiKey := by
  by_cases hkey : key = []
  · exact iff_of_true (exact_of_ok (if_pos hkey) (Or.inl hkey)) (Or.inl hkey)
  by_cases hsafe : HeaderSafe key xApiKey
  · refine iff_of_true ?_ (Or.inr hsafe)
    have hcompare := compareDigest_of_ascii hsafe.2 hsafe.1
    by_cases heq : xApiKey.getD [] = key
    · refine exact_of_ok ?_ (Or.inr ((getD_eq_key hkey).1 heq))
      rw [checkAuth, if_neg hkey, hcompare, decide_eq_true heq]
      rfl
    · refine exact_of_unauthorized ?_ ?_
      · rw [checkAuth, if_neg hkey, hcompare, decide_eq_false heq]
        rfl
      · rintro (h | h)
        · exact hkey h
        · exact heq ((getD_eq_key hkey).2 h)
  · refine iff_of_false ?_ (fun h => h.elim hkey hsafe)
    refine not_exact_of_error (e := .typeError) ?_ (by decide)
    rw [checkAuth, if_neg hkey, compareDigest_of_not fun h => hsafe ⟨h.2, h.1⟩]
    rfl

/-! ### The cookie -/

lemma partition_append {exp sig : PyStr} (h : dot ∉ exp) :
    partition (exp ++ dot :: sig) = (exp, sig) := by
  have hexp : ∀ c ∈ exp, decide (c ≠ dot) = true := fun c hc =>
    decide_eq_true (ne_of_mem_of_not_mem hc h)
  rw [partition, List.takeWhile_append_of_pos hexp, List.dropWhile_append_of_pos hexp,
    List.takeWhile_cons_of_neg (by simp), List.dropWhile_cons_of_neg (by simp),
    List.append_nil, List.tail_cons]

lemma partition_spec {token : PyStr} (h : dot ∈ token) :
    token = (partition token).1 ++ dot :: (partition token).2 := by
  have hne : token.dropWhile (· ≠ dot) ≠ [] := by
    intro hnil
    have hall := List.dropWhile_eq_nil_iff.1 hnil dot h
    simp at hall
  have hhead : (token.dropWhile (· ≠ dot)).head hne = dot := by
    simpa using List.head_dropWhile_not (· ≠ dot) hne
  have hdrop : dot :: (token.dropWhile (· ≠ dot)).tail = token.dropWhile (· ≠ dot) := by
    rw [← List.cons_head_tail hne, hhead, List.tail_cons]
  rw [partition]
  dsimp only
  rw [hdrop, List.takeWhile_append_dropWhile]

/-- What is known of a cookie that was minted and has not expired. -/
lemma IsLive.spec (h : IsLive hmac key mints now session) :
    ∃ exp n, session = some (exp ++ dot :: hmac.hexdigest key exp) ∧ dot ∉ exp ∧
      PyStr.readInt exp = some n ∧ now ≤ n ∧ key.encodes = true := by
  obtain ⟨m, -, token, hmint, rfl, hle⟩ := h
  rw [mintVizToken] at hmint
  split_ifs at hmint with hkey
  cases hexp : PyStr.strInt (m.now + m.ttl) with
  | none =>
    rw [hexp] at hmint
    cases hmint
  | some exp =>
    rw [hexp] at hmint
    obtain rfl := Except.ok.inj hmint
    obtain ⟨hread, hdot⟩ := PyStr.readInt_strInt hexp
    exact ⟨exp, m.now + m.ttl, rfl, hdot, hread, hle, hkey⟩

variable (hmac mints) in
/-- A cookie of which the part before the dot is no time, or one that has passed. -/
lemma validVizToken_of_past (hkey : key ≠ [])
    (h : ∀ n, dot ∈ session.getD [] → PyStr.readInt (partition (session.getD [])).1 = some n →
      ¬ now ≤ n) :
    validVizToken hmac key now session = .ok false ∧ ¬ IsLive hmac key mints now session := by
  constructor
  · rw [validVizToken]
    by_cases hdot : dot ∈ session.getD []
    · have hne : session.getD [] ≠ [] := List.ne_nil_of_mem hdot
      dsimp only
      rw [if_neg (by simp [hkey, hne, hdot])]
      cases hread : PyStr.readInt (partition (session.getD [])).1 with
      | none => rfl
      | some n =>
        dsimp only
        rw [if_pos (not_le.1 (h n hdot hread))]
    · exact if_pos (Or.inr (Or.inr hdot))
  · intro hlive
    obtain ⟨exp, n, rfl, hdot, hread, hle, -⟩ := hlive.spec
    refine h n (by simp) ?_ hle
    rw [Option.getD_some, partition_append hdot, hread]

/-- A cookie that claims a time that has not passed. -/
lemma validVizToken_of_future (hkey : key ≠ []) {n : ℤ} (hdot : dot ∈ session.getD [])
    (hread : PyStr.readInt (partition (session.getD [])).1 = some n) (hle : now ≤ n) :
    validVizToken hmac key now session =
      if key.encodes then compareDigest (partition (session.getD [])).2
        (hmac.hexdigest key (partition (session.getD [])).1)
      else .error .unicodeEncodeError := by
  have hne : session.getD [] ≠ [] := List.ne_nil_of_mem hdot
  rw [validVizToken]
  dsimp only
  rw [if_neg (by simp [hkey, hne, hdot]), hread]
  dsimp only
  rw [if_neg (not_lt.2 hle)]

/-- The cookie verifies just when it was minted and has not expired. -/
lemma isLive_iff (hforge : Unforgeable hmac key mints session) (hencodes : key.encodes = true)
    {n : ℤ} (hdot : dot ∈ session.getD [])
    (hread : PyStr.readInt (partition (session.getD [])).1 = some n) (hle : now ≤ n) :
    IsLive hmac key mints now session ↔
      (partition (session.getD [])).2 = hmac.hexdigest key (partition (session.getD [])).1 := by
  constructor
  · intro hlive
    obtain ⟨exp, n', rfl, hexp, -⟩ := hlive.spec
    rw [Option.getD_some, partition_append hexp]
  · intro hsig
    obtain ⟨token, rfl⟩ : ∃ token, session = some token := by
      cases session with
      | none => simp at hdot
      | some token => exact ⟨token, rfl⟩
    rw [Option.getD_some] at hdot hread hsig
    have htoken := partition_spec hdot
    rw [hsig] at htoken
    obtain ⟨m, hm, hexp⟩ := hforge _ (congrArg some htoken)
    refine ⟨m, hm, token, ?_, rfl, ?_⟩
    · rw [mintVizToken, if_pos hencodes, hexp]
      exact congrArg Except.ok htoken.symm
    · have hread' := (PyStr.readInt_strInt hexp).1
      rw [hread] at hread'
      rw [← Option.some.inj hread']
      exact hle

variable (now) in
/-- The check of the cookie, once the header has not let the request in. -/
lemma cookie_iff (hkey : key ≠ []) (hforge : Unforgeable hmac key mints session) :
    Exact (verdict (validVizToken hmac key now session)) (IsLive hmac key mints now session) ↔
      CookieSafe key now session := by
  by_cases hfuture : ∃ n, dot ∈ session.getD [] ∧
      PyStr.readInt (partition (session.getD [])).1 = some n ∧ now ≤ n
  · obtain ⟨n, hdot, hread, hle⟩ := hfuture
    rw [validVizToken_of_future hkey hdot hread hle]
    by_cases hencodes : key.encodes = true
    · rw [if_pos hencodes]
      have hlive := isLive_iff hforge hencodes hdot hread hle
      by_cases hsig : isAscii (partition (session.getD [])).2 = true
      · refine iff_of_true ?_ (fun _ _ _ _ => ⟨hencodes, hsig⟩)
        rw [compareDigest_of_ascii hsig (hmac.ascii _ _)]
        by_cases heq : (partition (session.getD [])).2 =
            hmac.hexdigest key (partition (session.getD [])).1
        · exact exact_of_ok (by rw [decide_eq_true heq]; rfl) (hlive.2 heq)
        · exact exact_of_unauthorized (by rw [decide_eq_false heq]; rfl) fun h => heq (hlive.1 h)
      · refine iff_of_false ?_ fun hsafe => hsig (hsafe n hdot hread hle).2
        rw [compareDigest_of_not fun h => hsig h.1]
        exact not_exact_of_error rfl (by decide)
    · rw [if_neg hencodes]
      refine iff_of_false ?_ fun hsafe => hencodes (hsafe n hdot hread hle).1
      exact not_exact_of_error rfl (by decide)
  · have hpast : ∀ n, dot ∈ session.getD [] →
        PyStr.readInt (partition (session.getD [])).1 = some n → ¬ now ≤ n :=
      fun n hdot hread hle => hfuture ⟨n, hdot, hread, hle⟩
    obtain ⟨hvalid, hlive⟩ := validVizToken_of_past hmac mints hkey hpast
    refine iff_of_true ?_ fun n hdot hread hle => absurd hle (hpast n hdot hread)
    rw [hvalid]
    exact exact_of_unauthorized rfl hlive

/-- The check of the header and the cookie. -/
lemma checkVizAuth_iff (hforge : Unforgeable hmac key mints session) :
    Exact (checkVizAuth hmac key now xApiKey session)
      (key = [] ∨ xApiKey = some key ∨ IsLive hmac key mints now session) ↔
    key = [] ∨ (xApiKey.getD [] = [] ∨ HeaderSafe key xApiKey) ∧
      (xApiKey = some key ∨ CookieSafe key now session) := by
  by_cases hkey : key = []
  · exact iff_of_true (exact_of_ok (if_pos hkey) (Or.inl hkey)) (Or.inl hkey)
  have hcookie := cookie_iff now hkey hforge
  rw [or_iff_right hkey, or_iff_right hkey]
  by_cases hempty : xApiKey.getD [] = []
  · have hne : xApiKey ≠ some key := by
      rintro rfl
      exact hkey hempty
    have hcheck : checkVizAuth hmac key now xApiKey session =
        verdict (validVizToken hmac key now session) := by
      simp only [checkVizAuth, if_neg hkey, if_pos hempty]
    rw [hcheck, or_iff_right hne, hcookie, and_iff_right (Or.inl hempty), or_iff_right hne]
  rw [or_iff_right hempty]
  by_cases hsafe : HeaderSafe key xApiKey
  · rw [and_iff_right hsafe]
    have hcompare := compareDigest_of_ascii hsafe.2 hsafe.1
    by_cases heq : xApiKey = some key
    · refine iff_of_true (exact_of_ok ?_ (Or.inl heq)) (Or.inl heq)
      simp only [checkVizAuth, if_neg hkey, if_neg hempty, hcompare,
        decide_eq_true ((getD_eq_key hkey).2 heq)]
    · have hother : xApiKey.getD [] ≠ key := fun h => heq ((getD_eq_key hkey).1 h)
      have hcheck : checkVizAuth hmac key now xApiKey session =
          verdict (validVizToken hmac key now session) := by
        simp only [checkVizAuth, if_neg hkey, if_neg hempty, hcompare, decide_eq_false hother]
      rw [hcheck, or_iff_right heq, hcookie, or_iff_right heq]
  · refine iff_of_false ?_ fun h => hsafe h.1
    refine not_exact_of_error (e := .typeError) ?_ (by decide)
    simp only [checkVizAuth, if_neg hkey, if_neg hempty,
      compareDigest_of_not fun h => hsafe ⟨h.2, h.1⟩]

end

/-- The signature of `160` under the key `k`. -/
def sampleDigits : PyStr := .of "2ca6ea5f0be49f4c53466a0eb4d3bde85056d1b5559a00c5710d8f7a988c2cf6"

lemma isAscii_sample (key text : PyStr) :
    isAscii (if key = .of "k" ∧ text = .of "160" then sampleDigits
      else List.replicate 64 '0'.toNat) = true := by
  split_ifs <;> decide

/-- The signature of one text, and zeros for the others. -/
def Hmac.sample : Hmac where
  hexdigest key text :=
    if key = .of "k" ∧ text = .of "160" then sampleDigits else List.replicate 64 '0'.toNat
  ascii := isAscii_sample

/-- A cookie that was minted at 100 for 60 seconds. -/
def mintedAt100 : PyStr := .of "160" ++ dot :: sampleDigits

lemma mintedAt100_mint : mintVizToken .sample (.of "k") 100 60 = .ok mintedAt100 := by decide

lemma mintedAt100_unforgeable :
    Unforgeable .sample (.of "k") [⟨100, 60⟩] (some mintedAt100) := by
  intro exp hexp
  -- the two signatures have the same length, so what stands before them is the same
  have hlength : ∀ text, (dot :: Hmac.sample.hexdigest (.of "k") text).length = 65 := by
    intro text
    simp only [Hmac.sample]
    split_ifs <;> rfl
  obtain ⟨rfl, -⟩ := List.append_inj' (Option.some.inj hexp) (by
    rw [hlength]
    decide)
  exact ⟨_, List.mem_singleton_self _, by decide⟩

end PalaceDaemon.Auth
