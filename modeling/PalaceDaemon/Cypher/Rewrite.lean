/-
The rewriting of sort keys before a query goes to the graph database.

Apache AGE resolves the names of an `ORDER BY` against the clauses before the projection, and not
against the aliases of the projection itself.  `rewriteOrderByAliases` replaces every name of an
`ORDER BY` that it takes for such an alias by the expression that it takes for its definition.  It
reads the query as a list of tokens with the depth of their brackets: a projection is what stands
between a `RETURN` or `WITH` outside brackets and the next keyword of a clause, if that is an
`ORDER BY`, whose body ends at the next keyword of a clause.

A text is the list of its characters, and a dictionary the list of what was put into it.
-/
import Mathlib.Data.List.Sort
import PalaceDaemon.Lib.PyText

namespace PalaceDaemon.Cypher

open PyText

abbrev Text := List Char

/-- The groups of `_TOKEN_RE`. -/
inductive Kind
  | ws
  | comment
  | str
  | param
  | ident
  | num
  | punct
deriving DecidableEq, Repr

/-! ### Tokens -/

/-- `[A-Za-z_]` -/
def isIdentStart (c : Char) : Bool := c.isAlpha || c = '_'

/-- `[A-Za-z_0-9]` -/
def isIdentChar (c : Char) : Bool := isIdentStart c || c.isDigit

/-- The length of the rest of a string after its opening quote, if the string ends. -/
def stringLength (quote : Char) : Text → Option ℕ
  | [] => none
  | '\\' :: _ :: cs => (stringLength quote cs).map (· + 2)
  | '\\' :: [] => none
  | c :: cs => if c = quote then some 1 else (stringLength quote cs).map (· + 1)

/-- The length of `\d+(?:\.\d+)?` -/
def numLength (cs : Text) : ℕ :=
  let whole := cs.takeWhile isDecimal
  let fraction := match cs.drop whole.length with
    | '.' :: rest => rest.takeWhile isDecimal
    | _ => []
  if fraction = [] then whole.length else whole.length + 1 + fraction.length

/-- The match of `_TOKEN_RE` at a text that begins with `c`: its group and its length. -/
def matchAt (c : Char) (cs : Text) : Kind × ℕ :=
  if isSpace c then (.ws, 1 + (cs.takeWhile isSpace).length)
  else if c = '/' ∧ cs.head? = some '/' then (.comment, 1 + (cs.takeWhile (· ≠ '\n')).length)
  else if c = '\'' ∨ c = '"' then match stringLength c cs with
    | some n => (.str, 1 + n)
    | none => (.punct, 1)
  else if c = '$' ∧ cs.head?.any isIdentStart then (.param, 1 + (cs.takeWhile isIdentChar).length)
  else if isIdentStart c then (.ident, 1 + (cs.takeWhile isIdentChar).length)
  else if isDecimal c then (.num, numLength (c :: cs))
  else (.punct, 1)

/-- A match of `_TOKEN_RE` -/
structure Lexeme where
  kind : Kind
  text : Text
  start : ℕ
  stop : ℕ
deriving DecidableEq, Repr

/-- `_TOKEN_RE.finditer`, from the position `start` on, for at most `fuel` matches. -/
def finditer : ℕ → ℕ → Text → List Lexeme
  | fuel + 1, start, c :: cs =>
      let (kind, n) := matchAt c cs
      ⟨kind, (c :: cs).take n, start, start + n⟩ ::
        finditer fuel (start + n) ((c :: cs).drop n)
  | _, _, _ => []

/-- `_Tok`; the end is called `stop`. -/
structure Tok where
  kind : Kind
  text : Text
  start : ℕ
  stop : ℕ
  depth : ℕ
  encloser : Option Text
deriving DecidableEq, Repr

/-- `_OPENERS` -/
def openers : List (Text × Text) := [(['('], [')']), (['['], [']']), (['{'], ['}'])]

/-- `_CLOSERS` -/
def closers : List Text := [[')'], [']'], ['}']]

/-- The loop of `_tokenize`, with the open brackets; the depth is their number. -/
def tokenizeFrom (stack : List Text) : List Lexeme → Option (List Tok)
  | [] => if stack = [] then some [] else none
  | l :: ls =>
      if l.kind = .ws ∨ l.kind = .comment then tokenizeFrom stack ls
      else if l.kind = .punct ∧ l.text ∈ closers then match stack with
        | [] => none
        | o :: stack =>
            if openers.lookup o = some l.text then
              (tokenizeFrom stack ls).map
                (⟨l.kind, l.text, l.start, l.stop, stack.length, stack.head?⟩ :: ·)
            else none
      else
        (tokenizeFrom
          (if l.kind = .punct ∧ (openers.lookup l.text).isSome then l.text :: stack else stack)
          ls).map (⟨l.kind, l.text, l.start, l.stop, stack.length, stack.head?⟩ :: ·)

/-- `_tokenize`; `none` stands for `_Unparseable`. -/
def tokenize (src : Text) : Option (List Tok) := tokenizeFrom [] (finditer src.length 0 src)

/-! ### Keywords -/

/-- `_CLAUSE_STARTERS` -/
def clauseStarters : List Text :=
  ["MATCH", "OPTIONAL", "WHERE", "UNWIND", "CREATE", "MERGE", "SET", "DELETE", "DETACH", "REMOVE",
    "CALL", "YIELD", "UNION", "FOREACH", "WITH", "RETURN", "ORDER", "SKIP", "LIMIT", "USING",
    "LOAD"].map String.toList

/-- `_PROJECTION_KEYWORDS` -/
def projectionKeywords : List Text := ["RETURN", "WITH"].map String.toList

/-- `_ORDER_BY_KEYWORDS` -/
def orderByKeywords : List Text :=
  ["ASC", "ASCENDING", "DESC", "DESCENDING", "AND", "OR", "XOR", "NOT", "IS", "NULL", "TRUE",
    "FALSE", "IN", "STARTS", "ENDS", "CONTAINS", "CASE", "WHEN", "THEN", "ELSE", "END",
    "DISTINCT"].map String.toList

/-- `_RESERVED` -/
def reserved : List Text :=
  clauseStarters ++ orderByKeywords ++ ["AS", "BY", "ON"].map String.toList

/-- `_Tok.upper`; it is only compared with words of ASCII. -/
def Tok.upper (t : Tok) : Text := t.text.map Char.toUpper

/-- The token is an identifier that reads as the word. -/
def Tok.isWord (t : Tok) (word : String) : Bool := t.kind = .ident && t.upper = word.toList

/-- The token is the punctuation mark. -/
def Tok.isPunct (t : Tok) (mark : Char) : Bool := t.kind = .punct && t.text = [mark]

/-! ### Projections and aliases -/

/-- `_is_clause_boundary` -/
def isClauseBoundary (t : Tok) : Bool :=
  t.depth = 0 && t.kind = .ident && t.upper ∈ clauseStarters

/-- The token is a keyword of a projection outside brackets. -/
def isProjectionKeyword (t : Tok) : Bool :=
  t.depth = 0 && t.kind = .ident && t.upper ∈ projectionKeywords

/-- The tokens before the next keyword of a clause. -/
def body (toks : List Tok) : List Tok := toks.takeWhile fun t => !isClauseBoundary t

/-- The tokens from the next keyword of a clause on. -/
def afterBody (toks : List Tok) : List Tok := toks.dropWhile fun t => !isClauseBoundary t

/-- What stands after the keyword of a projection, if an `ORDER BY` follows it: the tokens of the
projection and those of the `ORDER BY`. -/
def orderByOf (toks : List Tok) : Option (List Tok × List Tok) :=
  match afterBody toks with
  | o :: b :: rest =>
      if o.upper = "ORDER".toList ∧ b.upper = "BY".toList ∧ body toks ≠ [] ∧ body rest ≠ [] then
        some (body toks, body rest)
      else none
  | _ => none

/-- `_iter_projection_order_by`, from the token `i` on. -/
def iterFrom (i : ℕ) : List Tok → List (ℕ × List Tok × List Tok)
  | [] => []
  | t :: toks =>
      ((if isProjectionKeyword t then orderByOf toks else none).map fun (p, o) => (i, p, o)).toList
        ++ iterFrom (i + 1) toks

/-- `_iter_projection_order_by` -/
def iterProjectionOrderBy (toks : List Tok) : List (ℕ × List Tok × List Tok) := iterFrom 0 toks

/-- `_split_top_level` -/
def splitTopLevel : List Tok → List (List Tok)
  | [] => [[]]
  | t :: toks =>
      if t.isPunct ',' ∧ t.depth = 0 then [] :: splitTopLevel toks
      else match splitTopLevel toks with
        | [] => [[t]]
        | item :: items => (t :: item) :: items

/-- `src[item[0].start : item[as_pos - 1].end].strip()` for the tokens before the `AS`. -/
def expressionText (src : Text) (expression : List Tok) : Text :=
  match expression.head?, expression.getLast? with
  | some first, some last => strip (slice src first.start last.stop)
  | _, _ => []

/-- What stands before the last `AS` outside brackets, and the token after it. -/
def splitAs : List Tok → Option (List Tok × Option Tok)
  | [] => none
  | t :: toks => match splitAs toks with
    | some (expression, name) => some (t :: expression, name)
    | none => if t.isWord "AS" ∧ t.depth = 0 then some ([], toks.head?) else none

/-- The alias of an item and the text of its expression. -/
def aliasOf (src : Text) (item : List Tok) : Option (Text × Text) :=
  match splitAs item with
  | some (expression, some name) =>
      if expression ≠ [] ∧ name.kind = .ident ∧ expressionText src expression ≠ [] then
        some (name.text, expressionText src expression)
      else none
  | _ => none

/-- A `DISTINCT` before the first item is no part of it. -/
def dropDistinct : List Tok → List Tok
  | t :: toks => if t.isWord "DISTINCT" then toks else t :: toks
  | [] => []

/-- `_alias_map` -/
def aliasMap (src : Text) (projection : List Tok) : List (Text × Text) :=
  match splitTopLevel projection with
  | [] => []
  | first :: items => (dropDistinct first :: items).filterMap (aliasOf src)

/-- The entry of a dictionary that was put last under the name. -/
def get (entries : List (Text × Text)) (name : Text) : Option Text :=
  ((entries.filter fun entry => entry.1 = name).getLast?).map Prod.snd

/-- The identifier may bind a variable, between the tokens before and after it. -/
def mayBind (previous : Option Tok) (t : Tok) (next : Option Tok) : Bool :=
  t.kind = .ident && t.upper ∉ reserved &&
    !(previous.any fun p => p.isPunct '.' || p.isPunct ':') && !(next.any (·.isPunct '(')) &&
    !(next.any (·.isPunct ':') && t.encloser = some ['{'])

/-- The names of `n` tokens that may bind a variable. -/
def boundFrom (previous : Option Tok) : ℕ → List Tok → List Text
  | n + 1, t :: toks =>
      (if mayBind previous t toks.head? then [t.text] else []) ++ boundFrom (some t) n toks
  | _, _ => []

/-- `_bound_identifiers` -/
def boundIdentifiers (toks : List Tok) (upto : ℕ) : List Text := boundFrom none upto toks

/-- A text that goes where the tokens from `start` to `stop` were. -/
structure Substitution where
  start : ℕ
  stop : ℕ
  text : Text
deriving DecidableEq, Repr

/-- The identifier may refer to an alias, between the tokens before and after it. -/
def mayRefer (previous : Option Tok) (t : Tok) (next : Option Tok) : Bool :=
  t.kind = .ident && t.upper ∉ orderByKeywords && !(previous.any (·.isPunct '.')) &&
    !(next.any fun n => n.isPunct '(' || n.isPunct ':')

/-- `_substitutions`, after the token `previous`. -/
def substitutionsFrom (aliases : List (Text × Text)) (previous : Option Tok) :
    List Tok → List Substitution
  | [] => []
  | t :: toks =>
      (match get aliases t.text with
        | some expression =>
            if mayRefer previous t toks.head? then
              [⟨t.start, t.stop, '(' :: expression ++ [')']⟩]
            else []
        | none => []) ++ substitutionsFrom aliases (some t) toks

/-- `_substitutions` -/
def substitutions (orderBy : List Tok) (aliases : List (Text × Text)) : List Substitution :=
  substitutionsFrom aliases none orderBy

/-- The aliases of a projection that are not bound before it. -/
def unboundAliases (src : Text) (toks : List Tok) (i : ℕ) (projection : List Tok) :
    List (Text × Text) :=
  (aliasMap src projection).filter fun entry => entry.1 ∉ boundIdentifiers toks i

/-- All the substitutions of `rewrite_order_by_aliases`. -/
def allSubstitutions (src : Text) (toks : List Tok) : List Substitution :=
  (iterProjectionOrderBy toks).flatMap fun (i, projection, orderBy) =>
    substitutions orderBy (unboundAliases src toks i projection)

/-- `out[:start] + replacement + out[end:]` -/
def Substitution.apply (out : Text) (s : Substitution) : Text :=
  out.take s.start ++ s.text ++ out.drop s.stop

/-- `rewrite_order_by_aliases` of a text -/
def rewriteOrderByAliases (cypher : Text) : Text :=
  if strip cypher = [] then cypher
  else match tokenize cypher with
    | none => cypher
    | some toks =>
        ((allSubstitutions cypher toks).insertionSort fun s s' => s'.start ≤ s.start).foldl
          Substitution.apply cypher

end PalaceDaemon.Cypher
