import Propositional.Proofs.Diagram.Identifier
import Propositional.Proofs.Diagram.Tree

/-!
# Which drawings are read back

The names in a formula and the title of a drawing are arbitrary texts, and nothing in them is
escaped: they stand as they are in the comment, and are written as identifiers by `quoteId`. So a
drawing is read back as it was meant for plain texts only, and its comment takes one line only if it
has no line feed.

Everything between the braces is a list of pieces (`graphPieces`), most of them fixed words, which
are bare and plain. The texts of operators and constants are such words too, and the numbers of
boxes; so only names and the title count.

Results:
* `reads_graphText_iff`: what follows the comment is read as it was meant iff the names and the
  title are plain.
* `isCommentLine_iff`: when the comment is one line.
* `isReadBack_iff`: both, for the whole drawing; its text has one reading then
  (`IsReadBack.reads_source_iff`).
* `markup_not_read_back`: a name in angle brackets is taken for markup.
-/

namespace Propositional.Diagram

/-! ## What is meant -/

/-- A name, and what it is set to. -/
def assignment (name value : String) : List Lexeme :=
  [.id name, .sign '=', .id value]

/-- A statement as it is meant. -/
def Statement.lexemes : Statement → List Lexeme
  | .box id kind label =>
    .id (boxName id) :: .sign '[' :: (assignment "label" label ++
      assignment "fillcolor" kind.style.fillColor ++ assignment "shape" kind.style.shape ++
      assignment "style" "filled" ++ [.sign ']'])
  | .arrow tail head => [.id (boxName tail), .arrow, .id (boxName head)]

/-- The attributes of a drawing as a whole. -/
def captionLexemes (title : Option String) : List Lexeme :=
  assignment "ordering" "out" ++ assignment "rankdir" "TB" ++
    match usedTitle title with
    | some title => assignment "label" title ++ assignment "labelloc" "t"
    | none => []

/-- A drawing as it is meant. -/
def lexemes (e : Expr) (title : Option String) : List Lexeme :=
  .keyword "digraph" :: .sign '\x7b' :: (captionLexemes title ++
    ((statements 0 e).flatMap Statement.lexemes ++ [.sign '\x7d']))

/-- The text of a drawing after the comment. -/
def graphText (e : Expr) (title : Option String) : String :=
  "digraph \x7b\n" ++ (captions title ++ (statementLines (statements 0 e) ++ "\x7d\n"))

/-! ## Words -/

/-- A name or number that is no word of the language. -/
def isWord (text : String) : Bool :=
  isBare text.toList && !isReserved text.toList && text.toList.getLast? != some '\n'

theorem quoteId_of_isWord {text : String} (h : isWord text = true) : quoteId text = text := by
  simp only [isWord, Bool.and_eq_true, Bool.not_eq_true'] at h
  exact quoteId_of_isBare h.1.1 h.1.2

theorem plain_of_isWord {text : String} (h : isWord text = true) : Plain text := by
  simp only [isWord, Bool.and_eq_true, bne_iff_ne] at h
  exact plain_of_isBare h.1.1 h.2

/-- The words that are the same in all drawings. -/
def fixedWords : List String :=
  ["label", "fillcolor", "shape", "style", "filled", "ordering", "out", "rankdir", "TB", "labelloc",
    "t"]

theorem isWord_of_mem {word : String} (h : word ∈ fixedWords) : isWord word = true := by
  have hall : ∀ word ∈ fixedWords, isWord word = true := by decide
  exact hall word h

theorem quoteId_of_mem {word : String} (h : word ∈ fixedWords) : quoteId word = word :=
  quoteId_of_isWord (isWord_of_mem h)

theorem plain_of_mem {word : String} (h : word ∈ fixedWords) : Plain word :=
  plain_of_isWord (isWord_of_mem h)

theorem isWord_style (k : Kind) :
    isWord k.style.fillColor = true ∧ isWord k.style.shape = true := by
  cases k with
  | join c => cases c <;> decide
  | _ => decide

theorem isWord_word (o : Operator) : isWord o.word = true := by
  cases o with
  | not => decide
  | bin c => cases c <;> decide

theorem isWord_display (b : Bool) : isWord (Expr.const b).display = true := by
  cases b <;> decide

theorem toList_boxName (id : Nat) : (boxName id).toList = 'n' :: Nat.toDigits 10 id := by
  rw [boxName, String.toList_append, show (toString id).toList = _ from Nat.toList_repr]
  rfl

theorem isWord_boxName (id : Nat) : isWord (boxName id) = true := by
  have hdigits : ∀ c ∈ Nat.toDigits 10 id, c.isDigit = true := fun c hc =>
    Nat.isDigit_of_mem_toDigits (by decide) (by decide) hc
  have hlast : ('n' :: Nat.toDigits 10 id).getLast? ≠ some '\n' := fun h =>
    (List.mem_cons.mp (List.mem_of_getLast? h)).elim (by decide)
      fun hmem => absurd (hdigits _ hmem) (by decide)
  have hbare : isBare ('n' :: Nat.toDigits 10 id) = true := by
    have hwithout := (cases_withoutFinalFeed ('n' :: Nat.toDigits 10 id)).resolve_right
      fun h => hlast h.2
    have hnames : (Nat.toDigits 10 id).all isNameChar = true := List.all_eq_true.mpr fun c hc => by
      simp [isNameChar, Char.isAlphanum, hdigits c hc]
    rw [isBare, hwithout.1]
    simp [hnames, show isNameStart 'n' = true from rfl]
  have hword : isReserved ('n' :: Nat.toDigits 10 id) = false := by
    -- No word of the language has a digit for its second letter.
    obtain ⟨c, rest, heq⟩ := List.exists_cons_of_ne_nil (@Nat.toDigits_ne_nil id 10)
    have hc : c ∈ digits := mem_digits (hdigits c (heq ▸ List.mem_cons_self))
    have hsecond : ∀ c ∈ digits, ∀ word ∈ reservedWords, word.toList[1]? ≠ some c.toLower :=
      List.forall_iff_forall_mem.mp (by decide)
    refine List.any_eq_false.mpr fun word hmem h => hsecond c hc word hmem ?_
    rw [of_decide_eq_true h, heq]
    rfl
  rw [isWord, toList_boxName, hbare, hword, bne_iff_ne.mpr hlast]
  rfl

/-! ## Pieces -/

/-- The pieces of the line of a statement. -/
def Statement.pieces : Statement → List Piece
  | .box id kind label =>
    [.stop '\t', .id (boxName id) ' ', .stop '[', .id "label" '=', .id label ' ',
      .id "fillcolor" '=', .id kind.style.fillColor ' ', .id "shape" '=', .id kind.style.shape ' ',
      .id "style" '=', .id "filled" ']', .stop '\n']
  | .arrow tail head =>
    [.stop '\t', .id (boxName tail) ' ', .arrow, .stop ' ', .id (boxName head) '\n']

/-- The pieces of the lines about a drawing as a whole. -/
def captionPieces (title : Option String) : List Piece :=
  [.stop '\t', .id "ordering" '=', .id "out" ' ', .id "rankdir" '=', .id "TB" '\n'] ++
    match usedTitle title with
    | some title => [.stop '\t', .id "label" '=', .id title ' ', .id "labelloc" '=', .id "t" '\n']
    | none => []

/-- The pieces of a drawing after its first word. -/
def graphPieces (e : Expr) (title : Option String) : List Piece :=
  [.stop ' ', .stop '\x7b', .stop '\n'] ++ (captionPieces title ++
    ((statements 0 e).flatMap Statement.pieces ++ [.stop '\x7d', .stop '\n']))

theorem text_pieces (s : Statement) : s.pieces.flatMap Piece.text = (indented s.text).toList := by
  cases s with
  | box id kind label =>
    simp (disch := decide) [Statement.pieces, Piece.text, indented, Statement.text,
      quoteId_of_isWord (isWord_boxName id), quoteId_of_mem]
  | arrow tail head =>
    simp [Statement.pieces, Piece.text, indented, Statement.text,
      quoteId_of_isWord (isWord_boxName tail), quoteId_of_isWord (isWord_boxName head)]

theorem lexemes_pieces (s : Statement) : s.pieces.flatMap Piece.lexemes = s.lexemes := by
  cases s <;> rfl

theorem text_captionPieces (title : Option String) :
    (captionPieces title).flatMap Piece.text = (captions title).toList := by
  unfold captionPieces captions
  cases usedTitle title <;> simp (disch := decide) [Piece.text, indented, quoteId_of_mem]

theorem lexemes_captionPieces (title : Option String) :
    (captionPieces title).flatMap Piece.lexemes = captionLexemes title := by
  unfold captionPieces captionLexemes
  cases usedTitle title <;> rfl

theorem toList_graphText (e : Expr) (title : Option String) :
    (graphText e title).toList =
      "digraph".toList ++ (graphPieces e title).flatMap Piece.text := by
  have hlines : (statementLines (statements 0 e)).toList =
      ((statements 0 e).flatMap Statement.pieces).flatMap Piece.text := by
    simp only [statementLines, String.toList_join, List.flatMap_map, List.flatMap_assoc,
      text_pieces]
  simp [graphText, graphPieces, hlines, ← text_captionPieces, Piece.text]

theorem lexemes_eq (e : Expr) (title : Option String) :
    lexemes e title = .keyword "digraph" :: (graphPieces e title).flatMap Piece.lexemes := by
  have hlines : (statements 0 e).flatMap Statement.lexemes =
      ((statements 0 e).flatMap Statement.pieces).flatMap Piece.lexemes := by
    simp only [List.flatMap_assoc, lexemes_pieces]
  have hopen : [Piece.stop ' ', .stop '\x7b', .stop '\n'].flatMap Piece.lexemes =
      [.sign '\x7b'] := rfl
  have hclose : [Piece.stop '\x7d', .stop '\n'].flatMap Piece.lexemes = [.sign '\x7d'] := rfl
  rw [graphPieces, List.flatMap_append, List.flatMap_append, List.flatMap_append, hopen, hclose,
    ← hlines, lexemes_captionPieces]
  rfl

/-! ## Plain texts -/

theorem isPlain_box_iff {id : Nat} {k : Kind} {label : String} :
    (∀ p ∈ (Statement.box id k label).pieces, p.IsPlain) ↔ Plain label := by
  simp (disch := decide) [Statement.pieces, Piece.IsPlain, plain_of_mem,
    plain_of_isWord (isWord_boxName id), plain_of_isWord (isWord_style k).1,
    plain_of_isWord (isWord_style k).2]

theorem isPlain_arrow (tail head : Nat) :
    ∀ p ∈ (Statement.arrow tail head).pieces, p.IsPlain := by
  simp [Statement.pieces, Piece.IsPlain, plain_of_isWord (isWord_boxName tail),
    plain_of_isWord (isWord_boxName head)]

theorem isPlain_captionPieces_iff {title : Option String} :
    (∀ p ∈ captionPieces title, p.IsPlain) ↔ ∀ t ∈ usedTitle title, Plain t := by
  unfold captionPieces
  cases usedTitle title <;> simp (disch := decide) [Piece.IsPlain, plain_of_mem]

/-- The statements are plain iff the names are: all other texts in them are words. -/
theorem isPlain_statements_iff {id : Nat} {e : Expr} :
    (∀ p ∈ (statements id e).flatMap Statement.pieces, p.IsPlain) ↔
      ∀ x ∈ e.occurrences, Plain x := by
  induction e generalizing id with
  | const b =>
    rw [statements, List.flatMap_singleton, isPlain_box_iff]
    exact iff_of_true (plain_of_isWord (isWord_display b)) (List.forall_mem_nil _)
  | var x =>
    rw [statements, List.flatMap_singleton, isPlain_box_iff, Expr.occurrences,
      List.forall_mem_singleton]
    rfl
  | not e ih =>
    have hlabel : Plain (label e.not) := plain_of_isWord (isWord_word .not)
    simp only [statements, List.flatMap_append, List.flatMap_cons, List.flatMap_nil,
      List.append_nil, List.forall_mem_append, isPlain_box_iff, hlabel, true_and, ih,
      Expr.occurrences, and_iff_left (isPlain_arrow _ _)]
  | bin c l r ihl ihr =>
    have hlabel : Plain (label (.bin c l r)) := plain_of_isWord (isWord_word (.bin c))
    simp only [statements, List.flatMap_append, List.flatMap_cons, List.flatMap_nil,
      List.append_nil, List.forall_mem_append, isPlain_box_iff, hlabel, true_and, ihl, ihr,
      Expr.occurrences, and_iff_left (isPlain_arrow _ _)]

theorem reads_digraph_iff {rest : List Char} {ls : List Lexeme} :
    Reads ("digraph".toList ++ ' ' :: rest) (.keyword "digraph" :: ls) ↔
      Reads (' ' :: rest) ls := by
  have hword : BareWord "digraph".toList :=
    @bareWord_of_isBare "digraph".toList (by decide)
  have hkeyword : bareLexeme "digraph".toList = .keyword "digraph" := by decide
  rw [reads_cons_iff, next_bareWord hword (by decide) rest, hkeyword]
  · simp
  · rintro _ ⟨⟩
    decide

/-- **What follows the comment is read as it was meant iff the names and the title are plain.** -/
theorem reads_graphText_iff {e : Expr} {title : Option String} :
    Reads (graphText e title).toList (lexemes e title) ↔
      (∀ x ∈ e.occurrences, Plain x) ∧ ∀ t ∈ usedTitle title, Plain t := by
  have hplain : (∀ p ∈ graphPieces e title, p.IsPlain) ↔
      (∀ x ∈ e.occurrences, Plain x) ∧ ∀ t ∈ usedTitle title, Plain t := by
    simp only [graphPieces, List.forall_mem_append, isPlain_captionPieces_iff,
      isPlain_statements_iff]
    simp [Piece.IsPlain, and_comm]
  have hpieces := @reads_pieces_iff (graphPieces e title) [] []
  rw [List.append_nil, List.append_nil, hplain, and_iff_left .nil] at hpieces
  rw [toList_graphText, lexemes_eq, ← hpieces]
  exact reads_digraph_iff

/-! ## The comment -/

/-- The text is a comment, and has one line. -/
def IsCommentLine (text : String) : Prop :=
  ∃ line : List Char, '\n' ∉ line ∧ text.toList = '/' :: '/' :: (line ++ ['\n'])

theorem isCommentLine_iff {e : Expr} {title : Option String} :
    IsCommentLine (commentLine e title) ↔
      comment e title ≠ "" ∧ '\n' ∉ (comment e title).toList := by
  rw [commentLine]
  by_cases hempty : comment e title = ""
  · rw [hempty, if_pos (by decide)]
    refine iff_of_false ?_ fun h => h.1 rfl
    rintro ⟨line, -, heq⟩
    cases heq
  · rw [if_neg (by simpa using hempty), and_iff_right hempty]
    constructor
    · rintro ⟨line, hline, heq⟩ hmem
      have hbody : ' ' :: (comment e title).toList ++ ['\n'] = line ++ ['\n'] := by
        simpa using heq
      obtain rfl := List.append_cancel_right hbody
      exact hline (List.mem_cons_of_mem _ hmem)
    · exact fun h => ⟨' ' :: (comment e title).toList, by simpa using h, by simp⟩

/-! ## The whole drawing -/

/-- The drawing is read as it was meant: a comment of one line, and then the graph. -/
structure IsReadBack (e : Expr) (title : Option String) : Prop where
  comment : IsCommentLine (commentLine e title)
  graph : Reads (graphText e title).toList (lexemes e title)

/-- The comment is no part of what is read, so the whole text has the reading that was meant, and no
other. -/
theorem IsReadBack.reads_source_iff {e : Expr} {title : Option String} (h : IsReadBack e title)
    {ls : List Lexeme} : Reads (source e title).toList ls ↔ ls = lexemes e title := by
  obtain ⟨line, hline, heq⟩ := h.comment
  have hread := Reads.comment hline h.graph
  have hsource : '/' :: '/' :: (line ++ '\n' :: (graphText e title).toList) =
      (source e title).toList := by
    rw [source_eq, String.toList_append, heq]
    simp [graphText]
  rw [hsource] at hread
  exact ⟨fun h => h.unique hread, fun h => h ▸ hread⟩

/-- **A drawing is read back iff its comment has one line and its names and its title are plain.**
The comment is the title or else the formula; if this is empty there is no comment. -/
theorem isReadBack_iff (e : Expr) (title : Option String) :
    source e title = commentLine e title ++ graphText e title ∧
      (IsReadBack e title ↔
        (comment e title ≠ "" ∧ '\n' ∉ (comment e title).toList) ∧
          (∀ x ∈ e.occurrences, Plain x) ∧ ∀ t ∈ usedTitle title, Plain t) := by
  refine ⟨source_eq e title, fun h => ?_, fun h => ?_⟩
  · exact ⟨isCommentLine_iff.mp h.comment, reads_graphText_iff.mp h.graph⟩
  · exact ⟨isCommentLine_iff.mpr h.1, reads_graphText_iff.mpr h.2⟩

/-- A variable with a name in angle brackets is not read back: its name is taken for markup. -/
theorem markup_not_read_back : ¬ IsReadBack (.var ⟨"<b>", by decide⟩) none := by
  intro h
  have hplain : Plain "<b>" := (reads_graphText_iff.mp h.graph).1 "<b>" List.mem_cons_self
  have hmarkup : isMarkup "<b>".toList = true := by decide
  rw [hplain.notMarkup] at hmarkup
  cases hmarkup

end Propositional.Diagram
