import Propositional.Expr.Basic

/-!
# Diagrams

A formula is drawn as a tree: one numbered box for each node, in preorder, and an arrow from each
operator to each operand. The drawing is written in the DOT language. The statements of a subtree
stand before the arrow that leads to it.

* `statements` lists what is drawn, `source` is the text.
* `length_statements`: a formula of `n` nodes has `n` boxes and `n - 1` arrows.
* `quoteId` writes a text as an identifier. A text that reads as one is left bare, except the
  reserved words; a text in angle brackets is markup and is left bare as well.

`add` is the function `add` of `build_expression_graph`, which numbers the boxes with a counter.
`statements` numbers them by the sizes of the operands, and gives the same (`drawing_eq`). `label`
and `Kind.style` are `_node_label` and `_NODE_STYLES`; `quoteId` and the layout of `source` are
those of the library that writes the text. Out of scope: turning the text into an image, and the
warnings of that library.
-/

namespace Propositional.Diagram

/-! ## What is drawn -/

/-- What a node of a formula is. -/
inductive Kind where
  | constant
  | variable
  | negation
  | join (c : Connective)
  deriving DecidableEq, Repr

/-- How nodes of a kind are drawn. -/
structure Style where
  shape : String
  fillColor : String
  deriving DecidableEq, Repr

/-- The style of a kind. No two kinds share one. -/
def Kind.style : Kind → Style
  | .constant => ⟨"box", "lightgrey"⟩
  | .variable => ⟨"ellipse", "lightskyblue"⟩
  | .negation => ⟨"circle", "lightpink"⟩
  | .join .and => ⟨"circle", "palegreen"⟩
  | .join .or => ⟨"circle", "lightgoldenrodyellow"⟩

/-- The kind of the root of a formula. -/
def kind : Expr → Kind
  | .const _ => .constant
  | .var _ => .variable
  | .not _ => .negation
  | .bin c _ _ => .join c

/-- The text in the box of the root of a formula. -/
def label : Expr → String
  | .not _ => Operator.not.word
  | .bin c _ _ => (Operator.bin c).word
  | e => e.display

/-- A part of a drawing. -/
inductive Statement where
  | box (id : Nat) (kind : Kind) (label : String)
  | arrow (tail head : Nat)
  deriving DecidableEq, Repr

/-- A drawing in the making. -/
structure Sheet where
  /-- The number for the next box. -/
  next : Nat
  /-- What has been drawn, in order. -/
  drawn : List Statement

/-- Draws a box with the next number, which it gives. -/
def addBox (kind : Kind) (label : String) : StateM Sheet Nat :=
  fun sheet => (sheet.next, ⟨sheet.next + 1, sheet.drawn ++ [.box sheet.next kind label]⟩)

/-- Draws an arrow. -/
def addArrow (tail head : Nat) : StateM Sheet Unit :=
  modify fun sheet => { sheet with drawn := sheet.drawn ++ [.arrow tail head] }

/-- Draws a formula and gives the number of its box (`add`). -/
def add (e : Expr) : StateM Sheet Nat := do
  let id ← addBox (kind e) (label e)
  match e with
  | .const _ | .var _ => return id
  | .not e =>
    addArrow id (← add e)
    return id
  | .bin _ l r =>
    addArrow id (← add l)
    addArrow id (← add r)
    return id

/-- What is drawn of a formula, with numbers from zero on. -/
def drawing (e : Expr) : List Statement :=
  ((add e).run ⟨0, []⟩).2.drawn

/-- The statements of a formula whose root has a given number. -/
def statements (id : Nat) : Expr → List Statement
  | .const b => [.box id .constant (label (.const b))]
  | .var x => [.box id .variable (label (.var x))]
  | .not e =>
    .box id .negation (label (.not e)) :: statements (id + 1) e ++ [.arrow id (id + 1)]
  | .bin c l r =>
    .box id (.join c) (label (.bin c l r)) ::
      statements (id + 1) l ++ [.arrow id (id + 1)] ++
      statements (id + 1 + l.size) r ++ [.arrow id (id + 1 + l.size)]

/-- **The boxes are numbered by the places of their formulas**: the numbers that are given out one
after the other are those that the sizes of the operands lead to. -/
theorem run_add (e : Expr) (sheet : Sheet) :
    (add e).run sheet =
      (sheet.next, ⟨sheet.next + e.size, sheet.drawn ++ statements sheet.next e⟩) := by
  induction e generalizing sheet with
  | const | var => rfl
  | not e ih =>
    have hstep : (add (.not e)).run sheet =
        let (head, below) := (add e).run
          ⟨sheet.next + 1, sheet.drawn ++ [.box sheet.next .negation (label (.not e))]⟩
        (sheet.next, ⟨below.next, below.drawn ++ [.arrow sheet.next head]⟩) := rfl
    simp only [hstep, ih]
    simp [statements, Expr.size, Nat.add_assoc]
  | bin c l r ihl ihr =>
    have hstep : (add (.bin c l r)).run sheet =
        let (left, below) := (add l).run
          ⟨sheet.next + 1, sheet.drawn ++ [.box sheet.next (.join c) (label (.bin c l r))]⟩
        let (right, below) :=
          (add r).run ⟨below.next, below.drawn ++ [.arrow sheet.next left]⟩
        (sheet.next, ⟨below.next, below.drawn ++ [.arrow sheet.next right]⟩) := rfl
    simp only [hstep, ihl, ihr]
    simp [statements, Expr.size, Nat.add_assoc]

theorem drawing_eq (e : Expr) : drawing e = statements 0 e := by
  rw [drawing, run_add, List.nil_append]

theorem length_statements (id : Nat) (e : Expr) :
    (statements id e).length + 1 = 2 * e.size := by
  induction e generalizing id with
  | const => rfl
  | var => rfl
  | not e ih =>
    have := ih (id + 1)
    simp only [statements, List.length_append, List.length_cons, List.length_nil, Expr.size]
    omega
  | bin c l r ihl ihr =>
    have := ihl (id + 1)
    have := ihr (id + 1 + l.size)
    simp only [statements, List.length_append, List.length_cons, List.length_nil, Expr.size]
    omega

/-! ## Identifiers -/

/-- The characters of a text, less one line feed at the end. -/
def withoutFinalFeed (text : List Char) : List Char :=
  if text.getLast? = some '\n' then text.dropLast else text

/-- Text in angle brackets. -/
def isMarkup (text : List Char) : Bool :=
  match withoutFinalFeed text with
  | '<' :: rest => rest.getLast? = some '>'
  | _ => false

/-- A letter from A to Z in either case, or an underscore. -/
def isNameStart (c : Char) : Bool :=
  c.isAlpha || c = '_'

/-- A letter, an underscore or a decimal digit. -/
def isNameChar (c : Char) : Bool :=
  c.isAlphanum || c = '_'

/-- A decimal number without a sign: digits, or digits and a point with digits after it or before
it. -/
def isUnsigned (text : List Char) : Bool :=
  match text with
  | '.' :: fraction => !fraction.isEmpty && fraction.all Char.isDigit
  | _ =>
    !(text.takeWhile Char.isDigit).isEmpty &&
      match text.dropWhile Char.isDigit with
      | [] => true
      | '.' :: fraction => fraction.all Char.isDigit
      | _ => false

/-- A name or a number. -/
def isBare (text : List Char) : Bool :=
  match withoutFinalFeed text with
  | [] => false
  | '-' :: rest => isUnsigned rest
  | c :: rest => (isNameStart c && rest.all isNameChar) || isUnsigned (c :: rest)

/-- The words of the language, in any letter case. -/
def reservedWords : List String :=
  ["node", "edge", "graph", "digraph", "subgraph", "strict"]

/-- A word of the language. -/
def isReserved (text : List Char) : Bool :=
  reservedWords.any fun word => word.toList = text.map Char.toLower

/-- Puts a backslash before each quote that an even number of backslashes precedes. `escaped` says
whether the number of backslashes just before is odd. -/
def escapeQuotes (escaped : Bool) : List Char → List Char
  | [] => []
  | '"' :: rest =>
    if escaped then '"' :: escapeQuotes false rest else '\\' :: '"' :: escapeQuotes false rest
  | '\\' :: rest => '\\' :: escapeQuotes (!escaped) rest
  | c :: rest => c :: escapeQuotes false rest

/-- A text as an identifier. -/
def quoteId (text : String) : String :=
  let cs := text.toList
  if isMarkup cs then text
  else if isBare cs && !isReserved cs then text
  else String.ofList ('"' :: escapeQuotes false cs ++ ['"'])

/-! ## The text -/

/-- The name of a box. -/
def boxName (id : Nat) : String :=
  s!"n{id}"

/-- A statement as one line of text. -/
def Statement.text : Statement → String
  | .box id kind label =>
    boxName id ++ " [label=" ++ quoteId label ++ " fillcolor=" ++ quoteId kind.style.fillColor ++
      " shape=" ++ quoteId kind.style.shape ++ " style=filled]"
  | .arrow tail head => boxName tail ++ " -> " ++ boxName head

/-- The title of a drawing: an empty one counts as none. -/
def usedTitle (title : Option String) : Option String :=
  title.filter (!·.isEmpty)

/-- The comment above a drawing: its title, or the formula. -/
def comment (e : Expr) (title : Option String) : String :=
  (usedTitle title).getD e.display

/-- The drawing of a formula in the DOT language. -/
def source (e : Expr) (title : Option String) : String :=
  let top := if (comment e title).isEmpty then "" else "// " ++ comment e title ++ "\n"
  let caption :=
    match usedTitle title with
    | some title => ["label=" ++ quoteId title ++ " labelloc=t"]
    | none => []
  let body := "ordering=out rankdir=TB" :: caption ++ (drawing e).map Statement.text
  top ++ "digraph \x7b\n" ++ String.join (body.map fun line => "\t" ++ line ++ "\n") ++ "\x7d\n"

end Propositional.Diagram
