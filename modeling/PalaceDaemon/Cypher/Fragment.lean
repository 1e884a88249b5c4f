/-
A fragment of Cypher, and the readings of tokens as its phrases.

The rules are those of the language for clauses and expressions, with the roles of the tokens as
their letters.  A role says which tokens may play it (`Role.admits`): a name is an identifier that
is no word of the language, the words after `.` and `:` and the keys of maps are any identifiers or
names between backticks, and keywords are read in upper and lower case.  From the rules follow the
roles that stand next to a role (`ok_of_part`) and the depths of the brackets.
-/
import PalaceDaemon.Cypher.Tokens

namespace PalaceDaemon.Cypher

open Grammar

/-! ### The rules -/

/-- What a token is to the query that it stands in. -/
inductive Role
  -- names: of variables, where they are used and where they are bound, and of functions
  | name
  | elem
  | binder
  | title
  | fn
  | space
  -- words that may be any
  | key
  | label
  | mapKey
  | field
  -- values
  | lit
  | truth
  | null
  -- marks
  | lpar
  | rpar
  | lbrack
  | rbrack
  | lbrace
  | rbrace
  | dot
  | comma
  | colon
  | bar
  | plusMinus
  | star
  | arith
  | equals
  | less
  | greater
  | tilde
  -- words of expressions and sort keys
  | logic
  | notKw
  | inKw
  | isKw
  | containsKw
  | startsEnds
  | withKw
  | whereKw
  | caseKw
  | whenKw
  | thenKw
  | elseKw
  | endKw
  | distinctKw
  | direction
  -- words of clauses
  | asKw
  | onKw
  | allKw
  | clauseKw
  | projKw
  | orderKw
  | byKw
deriving DecidableEq, Repr

/-- The phrases of the language. -/
inductive Phrase
  | expr
  | exprs
  | operator
  | alternatives
  | source
  | fold
  | index
  | map
  | entries
  | selectors
  | selector
  | call
  | fname
  | labels
  | path
  | node
  | link
  | stroke
  | detail
  | parts
  | part
  | range
  | item
  | keys
  | patterns
  | pattern
  | settings
  | setting
  | results
  | result
  | rest
  | titled
  | list
  | projection
  | clause
  | query
deriving DecidableEq, Repr

abbrev word (r : Role) : Symbol Role Phrase := .terminal r

abbrev phrase (n : Phrase) : Symbol Role Phrase := .nonterminal n

/-- The rules of the language. -/
def rules : Phrase → List (List (Symbol Role Phrase))
  | .expr => [
      [word .name], [word .lit], [word .truth], [word .null],
      [word .lpar, phrase .expr, word .rpar], [word .lbrack, word .rbrack],
      [word .lbrack, phrase .exprs, word .rbrack], [word .lbrack, phrase .source, word .rbrack],
      [word .lbrack, phrase .source, word .bar, phrase .expr, word .rbrack],
      [word .lbrack, phrase .path, word .bar, phrase .expr, word .rbrack],
      [word .lbrack, phrase .path, word .whereKw, phrase .expr, word .bar, phrase .expr,
        word .rbrack], [phrase .map], [phrase .call],
      [word .fn, word .lpar, phrase .source, word .rpar],
      [word .fn, word .lpar, phrase .fold, word .rpar], [phrase .path],
      [phrase .expr, word .dot, word .key], [phrase .expr, phrase .index],
      [phrase .expr, phrase .labels], [phrase .expr, word .colon, word .colon, word .label],
      [phrase .expr, word .lbrace, phrase .selectors, word .rbrace],
      [word .plusMinus, phrase .expr], [word .notKw, phrase .expr],
      [phrase .expr, phrase .operator, phrase .expr], [phrase .expr, word .isKw, word .null],
      [phrase .expr, word .isKw, word .notKw, word .null],
      [word .caseKw, phrase .alternatives, word .endKw],
      [word .caseKw, phrase .expr, phrase .alternatives, word .endKw],
      [word .caseKw, phrase .alternatives, word .elseKw, phrase .expr, word .endKw],
      [word .caseKw, phrase .expr, phrase .alternatives, word .elseKw, phrase .expr, word .endKw]]
  | .exprs => [
      [phrase .expr], [phrase .expr, word .comma, phrase .exprs]]
  | .operator => [
      [word .arith], [word .logic], [word .plusMinus], [word .star], [word .equals], [word .less],
      [word .greater], [word .less, word .equals], [word .greater, word .equals],
      [word .less, word .greater], [word .equals, word .tilde], [word .inKw], [word .containsKw],
      [word .startsEnds, word .withKw]]
  | .alternatives => [
      [word .whenKw, phrase .expr, word .thenKw, phrase .expr],
      [word .whenKw, phrase .expr, word .thenKw, phrase .expr, phrase .alternatives]]
  | .source => [
      [word .elem, word .inKw, phrase .expr],
      [word .elem, word .inKw, phrase .expr, word .whereKw, phrase .expr]]
  | .fold => [[word .elem, word .equals, phrase .expr, word .comma, word .binder, word .inKw, phrase
      .expr, word .bar, phrase .expr]]
  | .index => [
      [word .lbrack, phrase .expr, word .rbrack],
      [word .lbrack, phrase .expr, word .dot, word .dot, phrase .expr, word .rbrack],
      [word .lbrack, phrase .expr, word .dot, word .dot, word .rbrack],
      [word .lbrack, word .dot, word .dot, phrase .expr, word .rbrack]]
  | .map => [
      [word .lbrace, word .rbrace], [word .lbrace, phrase .entries, word .rbrace]]
  | .entries => [
      [word .mapKey, word .colon, phrase .expr],
      [word .mapKey, word .colon, phrase .expr, word .comma, phrase .entries]]
  | .selectors => [
      [phrase .selector], [phrase .selector, word .comma, phrase .selectors]]
  | .selector => [
      [word .dot, word .key], [word .dot, word .star], [word .mapKey, word .colon, phrase .expr],
      [word .name]]
  | .call => [
      [phrase .fname, word .lpar, word .rpar],
      [phrase .fname, word .lpar, phrase .exprs, word .rpar],
      [phrase .fname, word .lpar, word .distinctKw, phrase .exprs, word .rpar],
      [phrase .fname, word .lpar, word .star, word .rpar]]
  | .fname => [
      [word .fn], [word .space, word .dot, phrase .fname]]
  | .labels => [
      [word .colon, word .label], [phrase .labels, word .colon, word .label],
      [phrase .labels, word .bar, word .label]]
  | .path => [
      [phrase .node, phrase .link, phrase .node], [phrase .node, phrase .link, phrase .path]]
  | .node => [
      [word .lpar, word .rpar], [word .lpar, phrase .detail, word .rpar]]
  | .link => [
      [phrase .stroke], [phrase .stroke, word .greater], [word .less, phrase .stroke],
      [word .less, phrase .stroke, word .greater]]
  | .stroke => [
      [word .plusMinus, word .plusMinus],
      [word .plusMinus, word .lbrack, word .rbrack, word .plusMinus],
      [word .plusMinus, word .lbrack, phrase .detail, word .rbrack, word .plusMinus]]
  | .detail => [
      [word .elem], [phrase .parts], [word .elem, phrase .parts]]
  | .parts => [
      [phrase .part], [phrase .part, phrase .parts]]
  | .part => [
      [phrase .labels], [phrase .map], [word .lit], [phrase .range]]
  | .range => [
      [word .star], [word .star, word .lit], [word .star, word .dot, word .dot],
      [word .star, word .lit, word .dot, word .dot], [word .star, word .dot, word .dot, word .lit],
      [word .star, word .lit, word .dot, word .dot, word .lit]]
  | .item => [
      [phrase .expr], [word .star]]
  | .keys => [
      [phrase .expr], [phrase .expr, word .direction], [phrase .expr, word .comma, phrase .keys],
      [phrase .expr, word .direction, word .comma, phrase .keys]]
  | .patterns => [
      [phrase .pattern], [phrase .pattern, word .comma, phrase .patterns]]
  | .pattern => [
      [phrase .node], [phrase .path], [word .binder, word .equals, phrase .node],
      [word .binder, word .equals, phrase .path],
      [word .binder, word .equals, word .fn, word .lpar, phrase .path, word .rpar],
      [word .fn, word .lpar, phrase .path, word .rpar]]
  | .settings => [
      [phrase .setting], [phrase .setting, word .comma, phrase .settings]]
  | .setting => [
      [phrase .expr], [phrase .expr, word .plusMinus, word .equals, phrase .expr]]
  | .results => [
      [phrase .result], [phrase .result, word .comma, phrase .results]]
  | .result => [
      [word .binder], [word .field, word .asKw, word .binder]]
  | .rest => [
      [phrase .patterns], [phrase .patterns, word .onKw], [phrase .settings],
      [phrase .settings, word .onKw], [word .onKw], [word .allKw],
      [phrase .expr, word .asKw, word .binder], [phrase .results]]
  | .titled => [
      [phrase .item], [phrase .item, word .asKw, word .title]]
  | .list => [
      [phrase .titled], [phrase .titled, word .comma, phrase .list]]
  | .projection => [
      [word .projKw, phrase .list], [word .projKw, word .distinctKw, phrase .list]]
  | .clause => [
      [word .clauseKw], [word .clauseKw, phrase .rest], [phrase .projection],
      [phrase .projection, word .orderKw, word .byKw, phrase .keys]]
  | .query => [
      [phrase .clause], [phrase .clause, phrase .query]]

/-! ### The tokens of a role -/

/-- The words of clauses that may be names. -/
def unreserved : List Text := ["CALL", "YIELD", "FOREACH", "USING", "LOAD"].map String.toList

/-- The kinds of tokens that play a role. -/
inductive Shape
  | names
  | words
  | values
  | keywords (ws : List String)
  | marks (cs : List Char)

/-- The tokens that may play a role. -/
def Role.shape : Role → Shape
  | .name | .elem | .binder | .title | .fn | .space => .names
  | .key | .label | .mapKey | .field => .words
  | .lit => .values
  | .truth => .keywords ["TRUE", "FALSE"]
  | .null => .keywords ["NULL"]
  | .lpar => .marks ['(']
  | .rpar => .marks [')']
  | .lbrack => .marks ['[']
  | .rbrack => .marks [']']
  | .lbrace => .marks ['{']
  | .rbrace => .marks ['}']
  | .dot => .marks ['.']
  | .comma => .marks [',']
  | .colon => .marks [':']
  | .bar => .marks ['|']
  | .plusMinus => .marks ['+', '-']
  | .star => .marks ['*']
  | .arith => .marks ['/', '%', '^']
  | .equals => .marks ['=']
  | .less => .marks ['<']
  | .greater => .marks ['>']
  | .tilde => .marks ['~']
  | .logic => .keywords ["AND", "OR", "XOR"]
  | .notKw => .keywords ["NOT"]
  | .inKw => .keywords ["IN"]
  | .isKw => .keywords ["IS"]
  | .containsKw => .keywords ["CONTAINS"]
  | .startsEnds => .keywords ["STARTS", "ENDS"]
  | .withKw => .keywords ["WITH"]
  | .whereKw => .keywords ["WHERE"]
  | .caseKw => .keywords ["CASE"]
  | .whenKw => .keywords ["WHEN"]
  | .thenKw => .keywords ["THEN"]
  | .elseKw => .keywords ["ELSE"]
  | .endKw => .keywords ["END"]
  | .distinctKw => .keywords ["DISTINCT"]
  | .direction => .keywords ["ASC", "ASCENDING", "DESC", "DESCENDING"]
  | .asKw => .keywords ["AS"]
  | .onKw => .keywords ["ON"]
  | .allKw => .keywords ["ALL"]
  | .clauseKw => .keywords ["MATCH", "OPTIONAL", "WHERE", "UNWIND", "CREATE", "MERGE", "SET",
      "DELETE", "DETACH", "REMOVE", "CALL", "YIELD", "UNION", "FOREACH", "SKIP", "LIMIT", "USING",
      "LOAD"]
  | .projKw => .keywords ["RETURN", "WITH"]
  | .orderKw => .keywords ["ORDER"]
  | .byKw => .keywords ["BY"]

/-- The token is a name between backticks. -/
def Tok.isQuotedName (t : Tok) : Bool := t.kind = .str && t.text.head? = some '`'

/-- The token may play a role of the shape. -/
def Shape.admits (t : Tok) : Shape → Bool
  | .names => t.kind = .ident && (t.upper ∉ reserved || t.upper ∈ unreserved)
  | .words => t.kind = .ident || t.isQuotedName
  | .values => t.kind = .str || t.kind = .num || t.kind = .param
  | .keywords ws => ws.any t.isWord
  | .marks cs => cs.any t.isPunct

/-- The token may play the role. -/
def Role.admits (r : Role) (t : Tok) : Bool := r.shape.admits t

/-- The word may play a role of the shape. -/
def Shape.reads (word : Text) : Shape → Bool
  | .names => word ∉ reserved || word ∈ unreserved
  | .words => true
  | .keywords ws => ws.any fun w => word = w.toList
  | .values | .marks _ => false

/-- The word may play the role. -/
def Role.reads (r : Role) (word : Text) : Bool := r.shape.reads word

lemma reads_of_admits {r : Role} {t : Tok} (h : r.admits t = true) (hident : t.kind = .ident) :
    r.reads t.upper = true := by
  revert h
  rw [Role.admits, Role.reads]
  cases r.shape with
  | names => exact fun h => (Bool.and_eq_true_iff.1 h).2
  | words => exact fun _ => rfl
  | values => simp [Shape.admits, hident]
  | keywords ws =>
      intro h
      obtain ⟨w, hw, hword⟩ := List.any_eq_true.1 h
      exact List.any_eq_true.2 ⟨w, hw, (Bool.and_eq_true_iff.1 hword).2⟩
  | marks cs => simp [Shape.admits, Tok.isPunct, hident]

/-- The roles with which the tokens of a phrase begin. -/
def first : Phrase → List Role
  | .expr | .exprs | .keys | .settings | .setting => [.name, .lit, .truth, .null, .lpar, .lbrack,
      .fn, .plusMinus, .notKw, .caseKw, .lbrace, .space]
  | .operator => [.arith, .logic, .plusMinus, .star, .equals, .less, .greater, .inKw, .containsKw,
      .startsEnds]
  | .alternatives => [.whenKw]
  | .source | .fold => [.elem]
  | .index => [.lbrack]
  | .map => [.lbrace]
  | .entries => [.mapKey]
  | .selectors | .selector => [.dot, .mapKey, .name]
  | .call | .fname => [.fn, .space]
  | .labels => [.colon]
  | .path | .node => [.lpar]
  | .link => [.less, .plusMinus]
  | .stroke => [.plusMinus]
  | .detail => [.elem, .colon, .lbrace, .lit, .star]
  | .parts | .part => [.colon, .lbrace, .lit, .star]
  | .range => [.star]
  | .item | .titled | .list => [.name, .lit, .truth, .null, .lpar, .lbrack, .fn, .plusMinus, .notKw,
      .caseKw, .star, .lbrace, .space]
  | .patterns | .pattern => [.lpar, .binder, .fn]
  | .results | .result => [.binder, .field]
  | .rest => [.onKw, .allKw, .name, .lit, .truth, .null, .lpar, .lbrack, .fn, .plusMinus, .notKw,
      .caseKw, .binder, .lbrace, .field, .space]
  | .projection => [.projKw]
  | .clause | .query => [.clauseKw, .projKw]

/-- The roles with which they end. -/
def last : Phrase → List Role
  | .expr | .exprs | .alternatives | .source | .fold | .entries | .settings | .setting => [.name,
      .lit, .truth, .null, .rpar, .rbrack, .key, .label, .rbrace, .endKw]
  | .operator => [.arith, .logic, .plusMinus, .star, .equals, .less, .greater, .tilde, .inKw,
      .containsKw, .withKw]
  | .index => [.rbrack]
  | .map => [.rbrace]
  | .selectors | .selector => [.key, .star, .name, .lit, .truth, .null, .rpar, .rbrack, .label,
      .rbrace, .endKw]
  | .call | .path | .node | .patterns | .pattern => [.rpar]
  | .fname => [.fn]
  | .labels => [.label]
  | .link => [.greater, .plusMinus]
  | .stroke => [.plusMinus]
  | .detail => [.elem, .label, .rbrace, .lit, .star, .dot]
  | .parts | .part => [.label, .rbrace, .lit, .star, .dot]
  | .range => [.star, .lit, .dot]
  | .item => [.name, .lit, .truth, .null, .rpar, .rbrack, .key, .label, .rbrace, .endKw, .star]
  | .keys => [.name, .lit, .truth, .null, .rpar, .rbrack, .key, .label, .rbrace, .endKw, .direction]
  | .results | .result => [.binder]
  | .rest => [.onKw, .allKw, .binder, .rpar, .name, .lit, .truth, .null, .rbrack, .key, .label,
      .rbrace, .endKw]
  | .titled | .list | .projection => [.name, .lit, .truth, .null, .rpar, .rbrack, .key, .label,
      .rbrace, .endKw, .star, .title]
  | .clause | .query => [.clauseKw, .onKw, .allKw, .binder, .name, .lit, .truth, .null, .rpar,
      .rbrack, .key, .label, .rbrace, .endKw, .star, .title, .direction]

/-- What stands before a token of the role, where the rules fix it. -/
def Role.before : Role → Option (List Role)
  | .key => some [.dot]
  | .label => some [.bar, .colon]
  | .mapKey => some [.comma, .lbrace]
  | .field => some [.clauseKw, .comma]
  | .elem => some [.lpar, .lbrack]
  | .binder => some [.asKw, .clauseKw, .comma]
  | .title => some [.asKw]
  | .distinctKw => some [.lpar, .projKw]
  | .byKw => some [.orderKw]
  | _ => none

/-- What stands after a token of the role, where the rules fix it. -/
def Role.after : Role → Option (List Role)
  | .mapKey => some [.colon]
  | .fn => some [.lpar]
  | .space => some [.dot]
  | .elem => some [.colon, .equals, .inKw, .lbrace, .lit, .rbrack, .rpar, .star]
  | .binder => some [.clauseKw, .comma, .equals, .inKw, .projKw]
  | .title => some [.clauseKw, .comma, .orderKw, .projKw]
  | .key | .label => some [.arith, .asKw, .bar, .clauseKw, .colon, .comma, .containsKw, .direction,
      .dot, .elseKw, .endKw, .equals, .greater, .inKw, .isKw, .lbrace, .lbrack, .less, .lit, .logic,
      .onKw, .orderKw, .plusMinus, .projKw, .rbrace, .rbrack, .rpar, .star, .startsEnds, .thenKw,
      .whenKw, .whereKw]
  | _ => none

/-- The roles may stand next to each other. -/
def ok (a b : Role) : Bool := b.before.all (a ∈ ·) && a.after.all (b ∈ ·)

lemma neighbours : Neighbours first last ok rules := by
  intro n
  cases n <;> decide

/-- What a token of the role does to the depth of the brackets. -/
def Role.side : Role → Side
  | .lpar | .lbrack | .lbrace => .opening
  | .rpar | .rbrack | .rbrace => .closing
  | _ => .inside

/-- What stands outside brackets only in lists and in the source of a comprehension. -/
def Role.separates (r : Role) : Bool := r = .comma || r = .whereKw

/-- The lists and the sources. -/
def Phrase.loose : Phrase → Bool
  | .exprs | .source | .fold | .entries | .selectors | .keys | .patterns | .settings | .results
  | .rest | .list | .projection | .clause | .query => true
  | _ => false

lemma brackets : Brackets Role.side Role.separates Phrase.loose rules := by
  intro n
  cases n <;> decide

/-- The phrases of expressions and sort keys. -/
def Phrase.inner : Phrase → Bool
  | .patterns | .pattern | .settings | .setting | .results | .result | .rest | .titled | .list
  | .projection | .clause | .query => false
  | _ => true

/-- The roles of the tokens in expressions and sort keys. -/
def Role.inner : Role → Bool
  | .title | .field | .asKw | .onKw | .allKw | .clauseKw | .projKw | .orderKw | .byKw => false
  | _ => true

lemma closed_inner : Closed Phrase.inner Role.inner rules := by
  intro n
  cases n <;> decide

/-- Only clauses have an `ORDER BY`. -/
lemma closed_no_order :
    Closed (fun n => n ≠ Phrase.clause && n ≠ Phrase.query) (fun r => r ≠ Role.orderKw) rules := by
  intro n
  cases n <;> decide

/-! ### Readings -/

/-- Tokens with their roles. -/
abbrev Reading := List (Role × Tok)

/-- The tokens of a reading. -/
def Reading.toks (xs : Reading) : List Tok := xs.map Prod.snd

@[simp] lemma toks_nil : Reading.toks [] = [] := rfl

@[simp] lemma toks_cons (x : Role × Tok) (xs : Reading) :
    Reading.toks (x :: xs) = x.2 :: xs.toks := rfl

@[simp] lemma toks_append (xs ys : Reading) : Reading.toks (xs ++ ys) = xs.toks ++ ys.toks :=
  List.map_append

/-- A reading of tokens as a phrase. -/
structure Part (n : Phrase) where
  reading : Reading
  derives : Derives rules [phrase n] (reading.map Prod.fst)
  admits : ∀ x ∈ reading, x.1.admits x.2 = true

/-- A token that plays a role. -/
def Word (r : Role) : Type := {t : Tok // r.admits t = true}

/-- What the tokens of the shape do to the depth of the brackets. -/
def Shape.sides : Shape → List Side
  | .marks cs => cs.map fun c => sideOf [c]
  | _ => [.inside]

lemma eq_side_of_shape {r : Role} : ∀ s ∈ r.shape.sides, s = r.side := by
  cases r <;> decide

lemma side_of_admits {r : Role} {t : Tok} (h : r.admits t = true) : t.side = r.side := by
  refine eq_side_of_shape _ ?_
  rw [Role.admits] at h
  rw [Tok.side]
  cases hshape : r.shape with
  | marks cs =>
      rw [hshape] at h
      obtain ⟨c, hc, hmark⟩ := List.any_eq_true.1 h
      obtain ⟨hkind, htext⟩ : t.kind = .punct ∧ t.text = [c] := by simpa [Tok.isPunct] using hmark
      rw [if_pos hkind, htext]
      exact List.mem_map.2 ⟨c, hc, rfl⟩
  | names | words | values | keywords =>
      rw [hshape] at h
      refine List.mem_singleton.2 (if_neg fun hkind => ?_)
      simp [Shape.admits, Tok.isWord, Tok.isQuotedName, hkind] at h

/-! ### What readings have -/

variable {n : Phrase}

lemma Part.inner (p : Part n) (hn : n.inner = true) : ∀ x ∈ p.reading, x.1.inner = true := by
  intro x hx
  refine letters_of_derives closed_inner p.derives ?_ x.1 (List.mem_map_of_mem hx)
  simpa [Stays] using hn

lemma Part.no_order (p : Part n) (hclause : n ≠ .clause) (hquery : n ≠ .query) :
    ∀ x ∈ p.reading, x.1 ≠ .orderKw := by
  intro x hx
  have hgood := letters_of_derives closed_no_order p.derives (fun X hX => ?_) x.1
    (List.mem_map_of_mem hx)
  · simpa using hgood
  · obtain rfl : X = phrase n := List.mem_singleton.1 hX
    simpa [Stays] using And.intro hclause hquery

/-- Neighbours in a reading of a phrase may stand next to each other. -/
lemma Part.chain (p : Part n) : p.reading.IsChain fun x y => ok x.1 y.1 = true :=
  (List.isChain_map _).1 (chain_of_derives neighbours p.derives).2.2

/-- What a token does to the depth of the brackets, by its role. -/
def sideAt (x : Role × Tok) : Side := x.1.side

/-- The brackets of the reading match. -/
def Flat (xs : Reading) : Prop := depthAfter sideAt 0 xs = 0

/-- The depths of the tokens are those of their roles, from depth 0 on. -/
def Leveled (xs : Reading) : Prop := levels sideAt 0 xs = xs.map fun x => (x, x.2.depth)

lemma Flat.append {xs ys : Reading} (hx : Flat xs) (hy : Flat ys) : Flat (xs ++ ys) := by
  rw [Flat, depthAfter_append, hx, hy]

lemma Leveled.append {xs ys : Reading} (h : Leveled (xs ++ ys)) (hflat : Flat xs) :
    Leveled xs ∧ Leveled ys := by
  rw [Leveled, levels_append, hflat, List.map_append] at h
  refine List.append_inj h ?_
  rw [length_levels, List.length_map]

lemma leveled_of_nested {xs : Reading} (hadmits : ∀ x ∈ xs, x.1.admits x.2 = true)
    {stack : List Text} (h : Nested stack xs.toks) :
    levels sideAt stack.length xs = xs.map fun x => (x, x.2.depth) := by
  induction xs generalizing stack with
  | nil => rfl
  | cons x xs ih =>
      have hside : sideAt x = x.2.side := (side_of_admits (hadmits x List.mem_cons_self)).symm
      have hrest := fun y hy => hadmits y (List.mem_cons_of_mem x hy)
      rw [toks_cons] at h
      rw [levels, hside, List.map_cons]
      cases h with
      | opening ht hdepth _ h =>
          rw [ht, hdepth]
          exact congrArg _ (ih hrest h)
      | closing ht hdepth _ h =>
          rw [ht, hdepth]
          exact congrArg _ (ih hrest h)
      | inside ht hdepth _ h =>
          rw [ht, hdepth]
          exact congrArg _ (ih hrest h)

lemma balanced_phrase (allowed : Bool) (hn : n.loose = true → allowed = true) :
    Balanced Role.side Role.separates Phrase.loose allowed 0 [phrase n] := ⟨fun _ => hn, rfl⟩

lemma Part.flat (p : Part n) : Flat p.reading := by
  have hflat := (levels_of_derives brackets p.derives (balanced_phrase true fun _ => rfl) 0).1
  rwa [depthAfter_map] at hflat

/-- Outside the brackets of a phrase that is not loose there is no separator. -/
lemma Part.no_separator (p : Part n) (hn : n.loose = false) (hlevels : Leveled p.reading) :
    ∀ x ∈ p.reading, x.2.depth = 0 → x.1.separates = false := by
  intro x hx hdepth
  have hlevel := (levels_of_derives brackets p.derives
    (balanced_phrase false fun h => absurd hn (by simp [h])) 0).2
  rw [levels_map, Nat.add_zero] at hlevel
  have hmem : (x, x.2.depth) ∈ levels sideAt 0 p.reading := by
    rw [hlevels]
    exact List.mem_map_of_mem hx
  have hno := (hlevel _ (List.mem_map_of_mem hmem)).2 hdepth
  exact Bool.eq_false_iff.2 fun hseparates => Bool.false_ne_true (hno hseparates)

end PalaceDaemon.Cypher
