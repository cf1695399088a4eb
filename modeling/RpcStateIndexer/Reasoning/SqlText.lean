import Mathlib.Data.List.Chain
import Mathlib.Data.List.DropRight

/-!
# SQL text

A text is read piece by piece: quoted literals, comments, semicolons, and other characters.  Its tokens
are the longest runs of pieces that stick together; white space and comments stand between tokens.  Which
neighbouring characters one token holds is a parameter, and so is what counts as white space.

To write a text without its comments keeps its tokens exactly where no comment was all that kept two
pieces apart.
-/

namespace RpcStateIndexer.Reasoning

def isQuote (c : Char) : Bool := c = '\x27' || c = '\x22' || c = '\x60'

/-- What a lexer takes for white space, and which neighbours it takes into one token. -/
structure SqlLexer where
  isSpace : Char → Bool
  glue : Char → Char → Bool
  isSpace_quote : ∀ c, isQuote c = true → isSpace c = false
  isSpace_mark : ∀ c ∈ [';', '-', '/', '*'], isSpace c = false

inductive Piece where
  | char (c : Char)
  | literal (text : List Char)
  | comment
  | semicolon
  deriving DecidableEq

/-- What is written of a piece when comments are left out. -/
def Piece.text : Piece → List Char
  | .char c => [c]
  | .literal text => text
  | .comment => []
  | .semicolon => [';']

def written (pieces : List Piece) : List Char := pieces.flatMap Piece.text

/-! ## Reading -/

/-- The inside of a literal: escaped characters, doubled quotes, and others. -/
inductive LiteralBody (quote : Char) : List Char → Prop
  | nil : LiteralBody quote []
  | escape {c : Char} {rest : List Char} (tail : LiteralBody quote rest) :
      LiteralBody quote ('\x5c' :: c :: rest)
  | doubled {rest : List Char} (tail : LiteralBody quote rest) : LiteralBody quote (quote :: quote :: rest)
  | char {c : Char} {rest : List Char} (hescape : c ≠ '\x5c') (hquote : c ≠ quote)
      (tail : LiteralBody quote rest) : LiteralBody quote (c :: rest)

/-- Two characters that mean something else when nothing stands between them. -/
def Meets (x y : Char) : Prop :=
  x = '-' ∧ y = '-' ∨ x = '/' ∧ y = '*' ∨ x = y ∧ isQuote x = true

instance (x y : Char) : Decidable (Meets x y) := inferInstanceAs (Decidable (_ ∨ _ ∨ _))

/-- One piece at the front of a text, and the text after it. -/
inductive ReadsPiece : List Char → Piece → List Char → Prop
  | char {c : Char} {rest : List Char} (hquote : isQuote c = false) (hsemicolon : c ≠ ';')
      (hopen : ∀ d ∈ rest.head?, ¬ Meets c d) : ReadsPiece (c :: rest) (.char c) rest
  | semicolon {rest : List Char} : ReadsPiece (';' :: rest) .semicolon rest
  | literal {quote : Char} {body rest : List Char} (hquote : isQuote quote = true)
      (hbody : LiteralBody quote body) (hend : rest.head? ≠ some quote) :
      ReadsPiece (quote :: (body ++ quote :: rest)) (.literal (quote :: (body ++ [quote]))) rest
  | lineComment {body rest : List Char} (hbody : '\n' ∉ body) (hend : ∀ d ∈ rest.head?, d = '\n') :
      ReadsPiece ('-' :: '-' :: (body ++ rest)) .comment rest
  | blockComment {body rest : List Char} (hbody : ¬ ['*', '/'] <:+: body ++ ['*']) :
      ReadsPiece ('/' :: '*' :: (body ++ '*' :: '/' :: rest)) .comment rest

/-- The text is read to its end. -/
inductive Lexes : List Char → List Piece → Prop
  | nil : Lexes [] []
  | cons {text rest : List Char} {piece : Piece} {pieces : List Piece} (first : ReadsPiece text piece rest)
      (tail : Lexes rest pieces) : Lexes text (piece :: pieces)

/-- The text ends inside a literal or a block comment. -/
inductive Unterminated : List Char → Prop
  | quote {quote : Char} {body : List Char} (hquote : isQuote quote = true)
      (hbody : LiteralBody quote body ∨ ∃ inner, LiteralBody quote inner ∧ body = inner ++ ['\x5c']) :
      Unterminated (quote :: body)
  | block {body : List Char} (hbody : ¬ ['*', '/'] <:+: body) : Unterminated ('/' :: '*' :: body)
  | cons {text rest : List Char} {piece : Piece} (first : ReadsPiece text piece rest)
      (tail : Unterminated rest) : Unterminated text

/-! ## Tokens -/

namespace SqlLexer

variable (lexer : SqlLexer)

def blank : Piece → Bool
  | .char c => lexer.isSpace c
  | .comment => true
  | _ => false

/-- The end of one piece and the start of the next belong to one token. -/
def sticks (p q : Piece) : Bool :=
  match p.text.getLast?, q.text.head? with
  | some x, some y => !lexer.isSpace x && !lexer.isSpace y && lexer.glue x y
  | _, _ => false

def tokens : List Piece → List (List Char)
  | [] => []
  | p :: rest =>
    if lexer.blank p then tokens rest
    else match tokens rest with
      | [] => [p.text]
      | token :: others =>
        if rest.head?.any (lexer.sticks p) then (p.text ++ token) :: others
        else p.text :: token :: others

/-- Only comments stand between two pieces of which one token, or something else, would be read. -/
def Joined (segment : List Piece) : Prop :=
  ∃ before p comments q after, segment = before ++ p :: (comments ++ q :: after) ∧ comments ≠ [] ∧
    (∀ piece ∈ comments, piece = .comment) ∧ ∃ x ∈ p.text.getLast?, ∃ y ∈ q.text.head?,
      lexer.isSpace x = false ∧ lexer.isSpace y = false ∧ (lexer.glue x y = true ∨ Meets x y)

def trim (text : List Char) : List Char := (text.dropWhile lexer.isSpace).rdropWhile lexer.isSpace

end SqlLexer

def Piece.literal? : Piece → Option (List Char)
  | .literal text => some text
  | _ => none

/-- The literals among the pieces. -/
def literals (pieces : List Piece) : List (List Char) := pieces.filterMap Piece.literal?

/-- The pieces of each statement. -/
def semicolonParts : List Piece → List (List Piece)
  | [] => [[]]
  | .semicolon :: rest => [] :: semicolonParts rest
  | piece :: rest =>
    match semicolonParts rest with
    | [] => [[piece]]
    | first :: others => (piece :: first) :: others

/-! ## What a reading shows of its pieces -/

/-- What a piece that was read looks like. -/
def Piece.Valid : Piece → Prop
  | .char c => isQuote c = false ∧ c ≠ ';'
  | .literal text => ∃ quote body, isQuote quote = true ∧ LiteralBody quote body ∧
      text = quote :: (body ++ [quote])
  | .comment => True
  | .semicolon => True

/-- Nothing else would be read if the second piece were written right after the first. -/
def Apart (p q : Piece) : Prop := ∀ x ∈ p.text.getLast?, ∀ y ∈ q.text.head?, ¬ Meets x y

theorem getLast?_literal (quote : Char) (body : List Char) :
    (quote :: (body ++ [quote])).getLast? = some quote := by
  rw [← List.cons_append, List.getLast?_concat]

/-- A quote only meets itself. -/
theorem meets_quote_iff {quote d : Char} (hquote : isQuote quote = true) : Meets quote d ↔ d = quote := by
  have hdash : quote ≠ '-' := by
    rintro rfl
    revert hquote
    decide
  have hslash : quote ≠ '/' := by
    rintro rfl
    revert hquote
    decide
  constructor
  · rintro (⟨h, -⟩ | ⟨h, -⟩ | ⟨h, -⟩)
    · exact absurd h hdash
    · exact absurd h hslash
    · exact h.symm
  · rintro rfl
    exact .inr (.inr ⟨rfl, hquote⟩)

namespace ReadsPiece

variable {text rest : List Char} {piece : Piece}

theorem valid (h : ReadsPiece text piece rest) : piece.Valid := by
  cases h with
  | char hquote hsemicolon => exact ⟨hquote, hsemicolon⟩
  | literal hquote hbody => exact ⟨_, _, hquote, hbody, rfl⟩
  | semicolon => trivial
  | lineComment => trivial
  | blockComment => trivial

theorem text_eq (h : ReadsPiece text piece rest) (hpiece : piece ≠ .comment) : text = piece.text ++ rest := by
  cases h with
  | char => rfl
  | semicolon => rfl
  | literal =>
    show _ :: (_ ++ _ :: rest) = _ :: (_ ++ [_]) ++ rest
    rw [List.cons_append, List.append_assoc, List.singleton_append]
  | lineComment => exact absurd rfl hpiece
  | blockComment => exact absurd rfl hpiece

theorem length_lt (h : ReadsPiece text piece rest) : rest.length < text.length := by
  cases h <;> simp only [List.length_cons, List.length_append] <;> omega

/-- What follows a piece could not have been read together with its end. -/
theorem apart (h : ReadsPiece text piece rest) : ∀ x ∈ piece.text.getLast?, ∀ y ∈ rest.head?, ¬ Meets x y := by
  intro x hx y hy
  cases h with
  | char _ _ hopen =>
    obtain rfl := Option.some.inj hx
    exact hopen y hy
  | semicolon =>
    obtain rfl := Option.some.inj hx
    rintro (⟨h, -⟩ | ⟨h, -⟩ | ⟨-, h⟩)
    · revert h
      decide
    · revert h
      decide
    · revert h
      decide
  | literal hquote _ hend =>
    change x ∈ (_ :: (_ ++ [_])).getLast? at hx
    rw [getLast?_literal] at hx
    obtain rfl := Option.some.inj hx
    rw [meets_quote_iff hquote]
    rintro rfl
    exact hend hy
  | lineComment => cases hx
  | blockComment => cases hx

/-- A piece is read wherever nothing meets its end. -/
theorem of_valid (hvalid : piece.Valid) (hpiece : piece ≠ .comment)
    (hapart : ∀ x ∈ piece.text.getLast?, ∀ y ∈ rest.head?, ¬ Meets x y) :
    ReadsPiece (piece.text ++ rest) piece rest := by
  cases piece with
  | char c => exact .char hvalid.1 hvalid.2 fun d hd => hapart c rfl d hd
  | literal text =>
    obtain ⟨quote, body, hquote, hbody, rfl⟩ := hvalid
    show ReadsPiece (quote :: (body ++ [quote]) ++ rest) _ _
    rw [List.cons_append, List.append_assoc, List.singleton_append]
    refine .literal hquote hbody fun hhead => ?_
    exact hapart quote (getLast?_literal quote body) quote hhead ((meets_quote_iff hquote).mpr rfl)
  | comment => exact absurd rfl hpiece
  | semicolon => exact .semicolon

end ReadsPiece

theorem text_ne_nil {piece : Piece} (hvalid : piece.Valid) (hpiece : piece ≠ .comment) :
    piece.text ≠ [] := by
  cases piece with
  | char c => exact List.cons_ne_nil _ _
  | literal text =>
    obtain ⟨quote, body, -, -, rfl⟩ := hvalid
    exact List.cons_ne_nil _ _
  | comment => exact absurd rfl hpiece
  | semicolon => exact List.cons_ne_nil _ _

theorem head?_written {piece : Piece} {pieces : List Piece} (hvalid : piece.Valid) (hpiece : piece ≠ .comment) :
    (written (piece :: pieces)).head? = piece.text.head? :=
  List.head?_append_of_ne_nil _ (text_ne_nil hvalid hpiece)

namespace Lexes

variable {text : List Char} {pieces : List Piece}

theorem valid (h : Lexes text pieces) : ∀ piece ∈ pieces, piece.Valid := by
  induction h with
  | nil => exact List.forall_mem_nil _
  | cons first _ ih => exact List.forall_mem_cons.mpr ⟨first.valid, ih⟩

theorem head? {piece : Piece} (h : Lexes text (piece :: pieces)) : ∀ y ∈ piece.text.head?, y ∈ text.head? := by
  intro y hy
  cases h with
  | cons first _ =>
    have hpiece : piece ≠ .comment := by
      rintro rfl
      cases hy
    rw [first.text_eq hpiece, List.head?_append_of_ne_nil _ (text_ne_nil first.valid hpiece)]
    exact hy

/-- Neighbouring pieces are apart. -/
theorem chain (h : Lexes text pieces) : pieces.IsChain Apart := by
  induction h with
  | nil => exact .nil
  | @cons text rest piece pieces first tail ih =>
    refine List.isChain_cons.mpr ⟨?_, ih⟩
    intro q hq x hx y hy
    cases pieces with
    | nil => cases hq
    | cons _ pieces =>
      obtain rfl := Option.some.inj hq
      exact first.apart x hx y (tail.head? y hy)

end Lexes

/-- Pieces that are apart are read back from what they write. -/
theorem lexes_written {pieces : List Piece} (hvalid : ∀ piece ∈ pieces, piece.Valid ∧ piece ≠ .comment)
    (hchain : pieces.IsChain Apart) : Lexes (written pieces) pieces := by
  induction pieces with
  | nil => exact .nil
  | cons piece rest ih =>
    obtain ⟨⟨hpiece, hcomment⟩, hrest⟩ := List.forall_mem_cons.mp hvalid
    obtain ⟨hhead, htail⟩ := List.isChain_cons.mp hchain
    refine .cons (.of_valid hpiece hcomment fun x hx y hy => ?_) (ih hrest htail)
    cases rest with
    | nil => cases hy
    | cons q rest =>
      obtain ⟨hq, hqcomment⟩ := hrest q List.mem_cons_self
      change y ∈ (written (q :: rest)).head? at hy
      rw [head?_written hq hqcomment] at hy
      exact hhead q rfl x hx y hy

/-! ## Leaving out the comments -/

def bare (pieces : List Piece) : List Piece := pieces.filter fun piece => piece ≠ .comment

theorem bare_cons {piece : Piece} (h : piece ≠ .comment) (pieces : List Piece) :
    bare (piece :: pieces) = piece :: bare pieces :=
  List.filter_cons_of_pos (by simpa using h)

theorem written_append (pieces others : List Piece) :
    written (pieces ++ others) = written pieces ++ written others := List.flatMap_append

theorem written_bare (pieces : List Piece) : written (bare pieces) = written pieces := by
  induction pieces with
  | nil => rfl
  | cons piece pieces ih =>
    by_cases hpiece : piece = .comment
    · subst hpiece
      exact ih
    · rw [bare_cons hpiece]
      show piece.text ++ written (bare pieces) = piece.text ++ written pieces
      rw [ih]

theorem literals_bare (pieces : List Piece) : literals (bare pieces) = literals pieces := by
  induction pieces with
  | nil => rfl
  | cons piece pieces ih =>
    by_cases hpiece : piece = .comment
    · subst hpiece
      exact ih
    · rw [bare_cons hpiece]
      unfold literals at ih ⊢
      rw [List.filterMap_cons, List.filterMap_cons, ih]

theorem ne_comment_of_mem_bare {piece : Piece} {pieces : List Piece} (h : piece ∈ bare pieces) :
    piece ∈ pieces ∧ piece ≠ .comment := by
  simpa [bare] using h

/-- Before the first piece that is kept there are comments only. -/
theorem exists_of_head?_bare {q : Piece} {pieces : List Piece} (h : (bare pieces).head? = some q) :
    ∃ comments after, pieces = comments ++ q :: after ∧ ∀ piece ∈ comments, piece = .comment := by
  induction pieces with
  | nil => cases h
  | cons piece pieces ih =>
    by_cases hpiece : piece = .comment
    · subst hpiece
      obtain ⟨comments, after, rfl, hcomments⟩ := ih h
      exact ⟨.comment :: comments, after, rfl, List.forall_mem_cons.mpr ⟨rfl, hcomments⟩⟩
    · rw [bare_cons hpiece] at h
      obtain rfl := Option.some.inj h
      exact ⟨[], pieces, rfl, List.forall_mem_nil _⟩

namespace SqlLexer

variable {lexer : SqlLexer} {pieces : List Piece}

theorem not_joined_of_cons {piece : Piece} (h : ¬ lexer.Joined (piece :: pieces)) :
    ¬ lexer.Joined pieces := by
  rintro ⟨before, p, comments, q, after, rfl, hrest⟩
  exact h ⟨piece :: before, p, comments, q, after, rfl, hrest⟩

/-- White space meets nothing. -/
theorem isSpace_of_meets {x y : Char} (h : Meets x y) : lexer.isSpace x = false ∧ lexer.isSpace y = false := by
  rcases h with ⟨rfl, rfl⟩ | ⟨rfl, rfl⟩ | ⟨rfl, hquote⟩
  · exact ⟨lexer.isSpace_mark _ (by decide), lexer.isSpace_mark _ (by decide)⟩
  · exact ⟨lexer.isSpace_mark _ (by decide), lexer.isSpace_mark _ (by decide)⟩
  · exact ⟨lexer.isSpace_quote _ hquote, lexer.isSpace_quote _ hquote⟩

/-- Where comments stood between two pieces they are neither glued nor met. -/
theorem apart_of_not_joined {p q : Piece} {comments after : List Piece}
    (h : ¬ lexer.Joined (p :: (comments ++ q :: after))) (hne : comments ≠ [])
    (hcomments : ∀ piece ∈ comments, piece = .comment) : Apart p q ∧ lexer.sticks p q = false := by
  constructor
  · intro x hx y hy hmeets
    obtain ⟨hxspace, hyspace⟩ := lexer.isSpace_of_meets hmeets
    exact h ⟨[], p, comments, q, after, rfl, hne, hcomments, x, hx, y, hy, hxspace, hyspace, .inr hmeets⟩
  · unfold sticks
    split
    · rename_i x y hx hy
      refine eq_false_of_ne_true fun hno => ?_
      simp only [Bool.and_eq_true, Bool.not_eq_true'] at hno
      exact h ⟨[], p, comments, q, after, rfl, hne, hcomments, x, hx, y, hy, hno.1.1, hno.1.2, .inl hno.2⟩
    · rfl

theorem sticks_comment (p : Piece) : lexer.sticks p .comment = false := by
  unfold sticks
  split
  · rename_i hy
    cases hy
  · rfl

/-- Next in the bare text is what was next, or what stood after comments. -/
theorem bare_next {p : Piece} (h : ¬ lexer.Joined (p :: pieces))
    (hchain : (p :: pieces).IsChain Apart) {q : Piece} (hq : (bare pieces).head? = some q) :
    Apart p q ∧ (pieces.head? = some q ∨ pieces.head? = some .comment ∧ lexer.sticks p q = false) := by
  obtain ⟨comments, after, rfl, hcomments⟩ := exists_of_head?_bare hq
  cases comments with
  | nil => exact ⟨(List.isChain_cons.mp hchain).1 q rfl, .inl rfl⟩
  | cons piece comments =>
    obtain ⟨hapart, hsticks⟩ := lexer.apart_of_not_joined h (List.cons_ne_nil _ _) hcomments
    obtain rfl := hcomments piece List.mem_cons_self
    exact ⟨hapart, .inr ⟨rfl, hsticks⟩⟩

theorem chain_bare (h : ¬ lexer.Joined pieces) (hchain : pieces.IsChain Apart) :
    (bare pieces).IsChain Apart := by
  induction pieces with
  | nil => exact .nil
  | cons p rest ih =>
    have hrest := ih (not_joined_of_cons h) (List.isChain_cons.mp hchain).2
    by_cases hp : p = .comment
    · subst hp
      exact hrest
    · rw [bare_cons hp]
      exact List.isChain_cons.mpr ⟨fun q hq => (lexer.bare_next h hchain hq).1, hrest⟩

theorem tokens_cons_blank {p : Piece} (h : lexer.blank p = true) (rest : List Piece) :
    lexer.tokens (p :: rest) = lexer.tokens rest := if_pos h

/-- The tokens do not see the comments that are left out. -/
theorem tokens_bare (h : ¬ lexer.Joined pieces) (hchain : pieces.IsChain Apart) :
    lexer.tokens (bare pieces) = lexer.tokens pieces := by
  induction pieces with
  | nil => rfl
  | cons p rest ih =>
    have hrest := ih (not_joined_of_cons h) (List.isChain_cons.mp hchain).2
    by_cases hp : p = .comment
    · subst hp
      exact hrest
    have hsame : (bare rest).head?.any (lexer.sticks p) = rest.head?.any (lexer.sticks p) := by
      cases hq : (bare rest).head? with
      | some q =>
        rcases (lexer.bare_next h hchain hq).2 with hhead | ⟨hhead, hsticks⟩
        · rw [hhead]
        · rw [hhead, Option.any_some, Option.any_some, hsticks, sticks_comment]
      | none =>
        -- Nothing is left, so all that follows are comments.
        cases rest with
        | nil => rfl
        | cons q rest =>
          have hcomment : q = .comment := by
            by_contra hno
            rw [bare_cons hno] at hq
            cases hq
          rw [hcomment, List.head?_cons, Option.any_some, sticks_comment]
          rfl
    rw [bare_cons hp]
    simp only [tokens, hrest, hsame]

/-! ## White space around a statement -/

variable (lexer) in
def trimPieces (pieces : List Piece) : List Piece := (pieces.dropWhile lexer.blank).rdropWhile lexer.blank

/-- A piece that is not blank begins and ends with characters that are no white space. -/
theorem ends_of_not_blank {p : Piece} (hvalid : p.Valid) (h : lexer.blank p = false) :
    (∃ x ∈ p.text.getLast?, lexer.isSpace x = false) ∧ ∃ y ∈ p.text.head?, lexer.isSpace y = false := by
  cases p with
  | char c => exact ⟨⟨c, rfl, h⟩, c, rfl, h⟩
  | literal text =>
    obtain ⟨quote, body, hquote, -, rfl⟩ := hvalid
    have hspace := lexer.isSpace_quote quote hquote
    exact ⟨⟨quote, getLast?_literal quote body, hspace⟩, quote, rfl, hspace⟩
  | comment => cases h
  | semicolon =>
    have hspace := lexer.isSpace_mark ';' (by decide)
    exact ⟨⟨';', rfl, hspace⟩, ';', rfl, hspace⟩

theorem isSpace_of_blank {p : Piece} (h : lexer.blank p = true) : ∀ c ∈ p.text, lexer.isSpace c = true := by
  cases p with
  | char c => exact List.forall_mem_singleton.mpr h
  | literal => cases h
  | comment => exact List.forall_mem_nil _
  | semicolon => cases h

theorem dropWhile_append_of_forall {α : Type} {P : α → Bool} {l : List α} (h : ∀ a ∈ l, P a = true)
    (rest : List α) : (l ++ rest).dropWhile P = rest.dropWhile P := by
  induction l with
  | nil => rfl
  | cons a l ih =>
    obtain ⟨ha, hl⟩ := List.forall_mem_cons.mp h
    rw [List.cons_append, List.dropWhile_cons_of_pos ha, ih hl]

theorem written_dropWhile (hvalid : ∀ p ∈ pieces, p.Valid) :
    written (pieces.dropWhile lexer.blank) = (written pieces).dropWhile lexer.isSpace := by
  induction pieces with
  | nil => rfl
  | cons p rest ih =>
    obtain ⟨hp, hrest⟩ := List.forall_mem_cons.mp hvalid
    show _ = (p.text ++ written rest).dropWhile lexer.isSpace
    cases hblank : lexer.blank p with
    | true =>
      rw [List.dropWhile_cons_of_pos hblank, dropWhile_append_of_forall (isSpace_of_blank hblank), ih hrest]
    | false =>
      rw [List.dropWhile_cons_of_neg (by rw [hblank]; exact Bool.false_ne_true)]
      obtain ⟨-, y, hy, hspace⟩ := ends_of_not_blank hp hblank
      obtain ⟨others, htext⟩ := List.head?_eq_some_iff.mp hy
      show p.text ++ written rest = _
      rw [htext, List.cons_append, List.dropWhile_cons_of_neg (by rw [hspace]; exact Bool.false_ne_true)]

theorem rdropWhile_append_of_forall {α : Type} {P : α → Bool} {l : List α} (h : ∀ a ∈ l, P a = true)
    (front : List α) : (front ++ l).rdropWhile P = front.rdropWhile P := by
  rw [List.rdropWhile, List.reverse_append, dropWhile_append_of_forall (by simpa using h)]
  rfl

theorem written_rdropWhile (hvalid : ∀ p ∈ pieces, p.Valid) :
    written (pieces.rdropWhile lexer.blank) = (written pieces).rdropWhile lexer.isSpace := by
  induction pieces using List.reverseRecOn with
  | nil => rfl
  | append_singleton front p ih =>
    have hp : p.Valid := hvalid p (List.mem_append_right _ List.mem_cons_self)
    have hfront : ∀ q ∈ front, q.Valid := fun q hq => hvalid q (List.mem_append_left _ hq)
    have hwritten : written (front ++ [p]) = written front ++ p.text := by
      rw [written_append]
      exact congrArg _ (List.append_nil _)
    rw [hwritten]
    cases hblank : lexer.blank p with
    | true =>
      rw [List.rdropWhile_concat_pos _ _ _ hblank, rdropWhile_append_of_forall (isSpace_of_blank hblank),
        ih hfront]
    | false =>
      obtain ⟨⟨x, hx, hspace⟩, -⟩ := ends_of_not_blank hp hblank
      obtain ⟨others, htext⟩ := List.getLast?_eq_some_iff.mp hx
      rw [List.rdropWhile_concat_neg _ _ _ (by rw [hblank]; exact Bool.false_ne_true), hwritten, htext,
        ← List.append_assoc, List.rdropWhile_concat_neg _ _ _ (by rw [hspace]; exact Bool.false_ne_true)]

theorem written_trimPieces (hvalid : ∀ p ∈ pieces, p.Valid) :
    written (lexer.trimPieces pieces) = lexer.trim (written pieces) := by
  have hdrop : ∀ p ∈ pieces.dropWhile lexer.blank, p.Valid := fun p hp =>
    hvalid p ((List.dropWhile_sublist _).subset hp)
  rw [trimPieces, written_rdropWhile hdrop, written_dropWhile hvalid]
  rfl

theorem tokens_dropWhile (pieces : List Piece) :
    lexer.tokens (pieces.dropWhile lexer.blank) = lexer.tokens pieces := by
  induction pieces with
  | nil => rfl
  | cons p rest ih =>
    cases hblank : lexer.blank p with
    | true => rw [List.dropWhile_cons_of_pos hblank, ih, tokens_cons_blank hblank]
    | false => rw [List.dropWhile_cons_of_neg (by rw [hblank]; exact Bool.false_ne_true)]

theorem tokens_append_blank {p : Piece} (h : lexer.blank p = true) (pieces : List Piece) :
    lexer.tokens (pieces ++ [p]) = lexer.tokens pieces := by
  induction pieces with
  | nil => exact tokens_cons_blank h []
  | cons q rest ih =>
    cases rest with
    | nil =>
      show lexer.tokens [q, p] = lexer.tokens [q]
      rw [tokens, tokens_cons_blank h]
      rfl
    | cons r rest =>
      have hhead : (r :: rest ++ [p]).head? = (r :: rest).head? := rfl
      rw [List.cons_append, tokens, ih, hhead]
      rfl

theorem tokens_rdropWhile (pieces : List Piece) :
    lexer.tokens (pieces.rdropWhile lexer.blank) = lexer.tokens pieces := by
  induction pieces using List.reverseRecOn with
  | nil => rfl
  | append_singleton front p ih =>
    cases hblank : lexer.blank p with
    | true => rw [List.rdropWhile_concat_pos _ _ _ hblank, ih, tokens_append_blank hblank]
    | false => rw [List.rdropWhile_concat_neg _ _ _ (by rw [hblank]; exact Bool.false_ne_true)]

theorem tokens_trimPieces (pieces : List Piece) :
    lexer.tokens (lexer.trimPieces pieces) = lexer.tokens pieces := by
  rw [trimPieces, tokens_rdropWhile, tokens_dropWhile]

theorem literal?_of_blank {p : Piece} (h : lexer.blank p = true) : p.literal? = none := by
  cases p with
  | literal => cases h
  | char => rfl
  | comment => rfl
  | semicolon => rfl

theorem literals_trimPieces (pieces : List Piece) : literals (lexer.trimPieces pieces) = literals pieces := by
  have hback : ∀ l : List Piece, literals (l.rdropWhile lexer.blank) = literals l := by
    intro l
    induction l using List.reverseRecOn with
    | nil => rfl
    | append_singleton front p ih =>
      cases hblank : lexer.blank p with
      | true =>
        rw [List.rdropWhile_concat_pos _ _ _ hblank, ih, literals, literals, List.filterMap_append,
          List.filterMap_cons_none (literal?_of_blank hblank), List.filterMap_nil, List.append_nil]
      | false => rw [List.rdropWhile_concat_neg _ _ _ (by rw [hblank]; exact Bool.false_ne_true)]
  rw [trimPieces, hback]
  induction pieces with
  | nil => rfl
  | cons p rest ih =>
    cases hblank : lexer.blank p with
    | true =>
      rw [List.dropWhile_cons_of_pos hblank, ih, literals, literals,
        List.filterMap_cons_none (literal?_of_blank hblank)]
    | false => rw [List.dropWhile_cons_of_neg (by rw [hblank]; exact Bool.false_ne_true)]

variable (lexer) in
/-- The text is read to the tokens and the literals of the pieces. -/
def SameTokens (pieces : List Piece) (text : List Char) : Prop :=
  ∃ read, Lexes text read ∧ lexer.tokens read = lexer.tokens pieces ∧ literals read = literals pieces

/-- Without a comment that kept pieces apart, the text without comments has the same tokens. -/
theorem sameTokens_of_not_joined (hvalid : ∀ p ∈ pieces, p.Valid) (hchain : pieces.IsChain Apart)
    (h : ¬ lexer.Joined pieces) : lexer.SameTokens pieces (lexer.trim (written pieces)) := by
  have hbare : ∀ p ∈ bare pieces, p.Valid ∧ p ≠ .comment := fun p hp =>
    have hmem := ne_comment_of_mem_bare hp
    ⟨hvalid p hmem.1, hmem.2⟩
  have hkept : ∀ p ∈ lexer.trimPieces (bare pieces), p.Valid ∧ p ≠ .comment := fun p hp =>
    hbare p ((List.dropWhile_sublist _).subset ((List.rdropWhile_prefix _ _).subset hp))
  have hdropped : ((bare pieces).dropWhile lexer.blank).IsChain Apart :=
    (chain_bare h hchain).suffix (List.dropWhile_suffix _)
  obtain ⟨back, hback⟩ := List.rdropWhile_prefix lexer.blank ((bare pieces).dropWhile lexer.blank)
  rw [← hback] at hdropped
  have hapart : (lexer.trimPieces (bare pieces)).IsChain Apart := hdropped.left_of_append
  refine ⟨lexer.trimPieces (bare pieces), ?_, ?_, ?_⟩
  · rw [← written_bare, ← written_trimPieces fun p hp => (hbare p hp).1]
    exact lexes_written hkept hapart
  · rw [tokens_trimPieces, tokens_bare h hchain]
  · rw [literals_trimPieces, literals_bare]

/-! ## Where tokens end

Leaving out comments moves no character that can be seen.  So the tokens of two texts with the same visible
characters are the same only if they end after the same ones. -/

variable (lexer) in
/-- The characters that are no white space. -/
def ink (text : List Char) : Nat := text.countP fun c => !lexer.isSpace c

variable (lexer) in
/-- How many visible characters have been passed at the end of each token. -/
def cuts : List (List Char) → List Nat
  | [] => []
  | token :: rest => lexer.ink token :: (cuts rest).map (· + lexer.ink token)

theorem ink_append (text others : List Char) : lexer.ink (text ++ others) = lexer.ink text + lexer.ink others :=
  List.countP_append

theorem ink_of_space {text : List Char} (h : ∀ c ∈ text, lexer.isSpace c = true) : lexer.ink text = 0 := by
  rw [ink, List.countP_eq_zero]
  intro c hc
  rw [h c hc]
  exact Bool.false_ne_true

theorem ink_cons {c : Char} (h : lexer.isSpace c = false) (text : List Char) :
    lexer.ink (c :: text) = lexer.ink text + 1 :=
  List.countP_cons_of_pos (by rw [h]; rfl)

theorem ink_pos {p : Piece} (hvalid : p.Valid) (h : lexer.blank p = false) : 0 < lexer.ink p.text := by
  obtain ⟨-, y, hy, hspace⟩ := ends_of_not_blank hvalid h
  obtain ⟨others, htext⟩ := List.head?_eq_some_iff.mp hy
  rw [htext, ink_cons hspace]
  exact Nat.succ_pos _

theorem written_cons (p : Piece) (rest : List Piece) : written (p :: rest) = p.text ++ written rest := rfl

/-- Every visible character of a piece is in a token. -/
theorem ink_tokens (hvalid : ∀ p ∈ pieces, p.Valid) :
    lexer.ink (lexer.tokens pieces).flatten = lexer.ink (written pieces) := by
  induction pieces with
  | nil => rfl
  | cons p rest ih =>
    have hrest := ih (List.forall_mem_cons.mp hvalid).2
    rw [written_cons, ink_append, ← hrest]
    cases hblank : lexer.blank p with
    | true => rw [tokens_cons_blank hblank, ink_of_space (isSpace_of_blank hblank), Nat.zero_add]
    | false =>
      rw [tokens, hblank, if_neg Bool.false_ne_true]
      cases lexer.tokens rest with
      | nil => rw [List.flatten_singleton, List.flatten_nil]; rfl
      | cons token others =>
        dsimp only
        split
        · rw [List.flatten_cons, List.append_assoc, ink_append]
          rfl
        · rw [List.flatten_cons, ink_append]

/-- The first token of a list ends with the first piece, or goes on. -/
theorem cuts_tokens_cons {p : Piece} (h : lexer.blank p = false) (rest : List Piece) :
    lexer.cuts (lexer.tokens (p :: rest)) =
        (lexer.cuts (lexer.tokens rest)).map (· + lexer.ink p.text) ∧
          rest.head?.any (lexer.sticks p) = true ∨
      lexer.cuts (lexer.tokens (p :: rest)) =
        lexer.ink p.text :: (lexer.cuts (lexer.tokens rest)).map (· + lexer.ink p.text) ∧
          (rest.head?.any (lexer.sticks p) = true → lexer.tokens rest = []) := by
  rw [tokens, h, if_neg Bool.false_ne_true]
  cases lexer.tokens rest with
  | nil => exact .inr ⟨rfl, fun _ => rfl⟩
  | cons token others =>
    dsimp only
    split
    · rename_i hsticks
      refine .inl ⟨?_, hsticks⟩
      rw [cuts, cuts, List.map_cons, List.map_map, ink_append, Nat.add_comm (lexer.ink token)]
      congr 2
      funext n
      show n + (lexer.ink p.text + lexer.ink token) = n + lexer.ink token + lexer.ink p.text
      omega
    · rename_i hsticks
      exact .inr ⟨rfl, fun hno => absurd hno hsticks⟩

theorem mem_cuts_cons {p : Piece} {rest : List Piece} {n : Nat} (h : n ∈ lexer.cuts (lexer.tokens rest))
    (hblank : lexer.blank p = false) : n + lexer.ink p.text ∈ lexer.cuts (lexer.tokens (p :: rest)) := by
  have hmem := List.mem_map_of_mem (f := (· + lexer.ink p.text)) h
  rcases cuts_tokens_cons hblank rest with ⟨hcuts, -⟩ | ⟨hcuts, -⟩
  · rw [hcuts]
    exact hmem
  · rw [hcuts]
    exact List.mem_cons_of_mem _ hmem

/-- A token ends where a comment begins. -/
theorem mem_cuts_before_comment {before rest : List Piece} {p : Piece} (hblank : lexer.blank p = false) :
    lexer.ink (written before ++ p.text) ∈ lexer.cuts (lexer.tokens (before ++ p :: .comment :: rest)) := by
  induction before with
  | nil =>
    rcases cuts_tokens_cons hblank (.comment :: rest) with ⟨-, hsticks⟩ | ⟨hcuts, -⟩
    · rw [List.head?_cons, Option.any_some, sticks_comment] at hsticks
      cases hsticks
    · rw [List.nil_append, hcuts]
      exact List.mem_cons_self
  | cons q before ih =>
    rw [written_cons, List.append_assoc, ink_append, List.cons_append]
    cases hq : lexer.blank q with
    | true =>
      rw [tokens_cons_blank hq, ink_of_space (isSpace_of_blank hq), Nat.zero_add]
      exact ih
    | false =>
      rw [Nat.add_comm]
      exact mem_cuts_cons ih hq

/-- No token ends within the first piece. -/
theorem ink_le_of_mem_cuts {p : Piece} {rest : List Piece} {n : Nat} (hblank : lexer.blank p = false)
    (h : n ∈ lexer.cuts (lexer.tokens (p :: rest))) :
    n = lexer.ink p.text ∨ ∃ m ∈ lexer.cuts (lexer.tokens rest), n = m + lexer.ink p.text := by
  rcases cuts_tokens_cons hblank rest with ⟨hcuts, -⟩ | ⟨hcuts, -⟩
  · rw [hcuts, List.mem_map] at h
    obtain ⟨m, hm, rfl⟩ := h
    exact .inr ⟨m, hm, rfl⟩
  · rw [hcuts, List.mem_cons, List.mem_map] at h
    rcases h with rfl | ⟨m, hm, rfl⟩
    · exact .inl rfl
    · exact .inr ⟨m, hm, rfl⟩

theorem pos_of_mem_cuts (hvalid : ∀ p ∈ pieces, p.Valid) {n : Nat}
    (h : n ∈ lexer.cuts (lexer.tokens pieces)) : 0 < n := by
  induction pieces generalizing n with
  | nil => cases h
  | cons p rest ih =>
    obtain ⟨hp, hrest⟩ := List.forall_mem_cons.mp hvalid
    cases hblank : lexer.blank p with
    | true =>
      rw [tokens_cons_blank hblank] at h
      exact ih hrest h
    | false =>
      have hpos := ink_pos hp hblank
      rcases ink_le_of_mem_cuts hblank h with rfl | ⟨m, -, rfl⟩
      · exact hpos
      · omega

theorem tokens_ne_nil {p : Piece} (h : lexer.blank p = false) (rest : List Piece) :
    lexer.tokens (p :: rest) ≠ [] := by
  intro hnil
  rcases cuts_tokens_cons h rest with ⟨hcuts, hsticks⟩ | ⟨hcuts, -⟩
  · rw [tokens, h, if_neg Bool.false_ne_true] at hnil
    cases htokens : lexer.tokens rest with
    | nil =>
      rw [htokens] at hnil
      cases hnil
    | cons token others =>
      rw [htokens] at hnil
      dsimp only at hnil
      rw [if_pos hsticks] at hnil
      cases hnil
  · rw [hnil] at hcuts
    cases hcuts

theorem not_blank_of_mem {p : Piece} {c : Char} (hc : c ∈ p.text) (h : lexer.isSpace c = false) :
    lexer.blank p = false := by
  refine eq_false_of_ne_true fun hblank => ?_
  rw [isSpace_of_blank hblank c hc] at h
  cases h

/-- Two visible neighbours with the end of a token between them are not read as one. -/
theorem not_joins_of_cut {text front back : List Char} {x y : Char} (h : Lexes text pieces)
    (hpieces : ∀ p ∈ pieces, p ≠ .comment) (htext : text = front ++ x :: y :: back)
    (hx : lexer.isSpace x = false) (hy : lexer.isSpace y = false)
    (hcut : lexer.ink front + 1 ∈ lexer.cuts (lexer.tokens pieces)) :
    ¬ (lexer.glue x y = true ∨ Meets x y) := by
  induction h generalizing front with
  | nil => exact absurd htext.symm (by simp)
  | @cons text rest p pieces first tail ih =>
    obtain ⟨hp, hrest⟩ := List.forall_mem_cons.mp hpieces
    have hpos : ∀ n ∈ lexer.cuts (lexer.tokens pieces), 0 < n := fun n => pos_of_mem_cuts tail.valid
    -- The two characters stand after the first piece: its end is passed, and the rest is the same.
    have hskip : ∀ inner, front = p.text ++ inner → rest = inner ++ x :: y :: back →
        ¬ (lexer.glue x y = true ∨ Meets x y) := by
      intro inner hfront hinner
      refine ih hrest hinner ?_
      rw [hfront, ink_append] at hcut
      cases hblank : lexer.blank p with
      | true => rwa [tokens_cons_blank hblank, ink_of_space (isSpace_of_blank hblank), Nat.zero_add] at hcut
      | false =>
        rcases ink_le_of_mem_cuts hblank hcut with hn | ⟨m, hm, hn⟩
        · omega
        · rwa [show lexer.ink inner + 1 = m by omega]
    rw [first.text_eq hp, List.append_eq_append_iff] at htext
    rcases htext with ⟨inner, hfront, hinner⟩ | ⟨inner, hinner, hrest'⟩
    · exact hskip inner hfront hinner
    cases inner with
    | nil => exact hskip [] (by rw [hinner, List.append_nil, List.append_nil]) hrest'.symm
    | cons c inner =>
      obtain ⟨rfl, hremain⟩ := List.cons.inj hrest'
      have hblank : lexer.blank p = false :=
        not_blank_of_mem (by rw [hinner]; exact List.mem_append_right _ List.mem_cons_self) hx
      have hink : lexer.ink p.text = lexer.ink front + (lexer.ink inner + 1) := by
        rw [hinner, ink_append, ink_cons hx]
      cases inner with
      | nil =>
        -- The first piece ends between them.
        have hlast : p.text.getLast? = some x := by rw [hinner, List.getLast?_concat]
        have hhead : rest.head? = some y := congrArg List.head? hremain.symm
        rintro (hglue | hmeets)
        · cases tail with
          | nil => cases hhead
          | @cons _ rest' q pieces hq htail =>
            have hqhead : q.text.head? = some y := by
              have hqne := text_ne_nil hq.valid (hrest q List.mem_cons_self)
              rwa [hq.text_eq (hrest q List.mem_cons_self), List.head?_append_of_ne_nil _ hqne] at hhead
            have hqblank := not_blank_of_mem (List.mem_of_mem_head? hqhead) hy
            have hsticks : lexer.sticks p q = true := by
              simp only [sticks, hlast, hqhead, hx, hy, hglue, Bool.not_false, Bool.and_self]
            rcases cuts_tokens_cons hblank (q :: pieces) with ⟨hcuts, -⟩ | ⟨-, hnil⟩
            · rw [hcuts, List.mem_map] at hcut
              obtain ⟨m, hm, hn⟩ := hcut
              have hm := hpos m hm
              simp only [ink, List.countP_nil] at hink hn
              omega
            · exact tokens_ne_nil hqblank pieces (hnil hsticks)
        · exact first.apart x hlast y hhead hmeets
      | cons d inner =>
        -- Both are in the first piece, before whose end no token ends.
        obtain ⟨rfl, -⟩ := List.cons.inj (show y :: back = d :: (inner ++ rest) from hremain)
        rw [ink_cons hy] at hink
        rcases ink_le_of_mem_cuts hblank hcut with hn | ⟨m, -, hn⟩ <;> omega

/-- What is read of a text shows no more than the text, and less where a comment was read. -/
theorem ink_written_le {text : List Char} (h : Lexes text pieces) :
    lexer.ink (written pieces) ≤ lexer.ink text ∧
      (lexer.ink text ≤ lexer.ink (written pieces) → ∀ p ∈ pieces, p ≠ .comment) := by
  induction h with
  | nil => exact ⟨le_rfl, fun _ => List.forall_mem_nil _⟩
  | @cons text rest p pieces first _ ih =>
    obtain ⟨hle, hnone⟩ := ih
    rw [written_cons, ink_append]
    by_cases hp : p = .comment
    · have hmark : lexer.ink rest < lexer.ink text := by
        have hdash := lexer.isSpace_mark '-' (by decide)
        have hslash := lexer.isSpace_mark '/' (by decide)
        subst hp
        cases first with
        | lineComment =>
          rw [ink_cons hdash, ink_cons hdash, ink_append]
          omega
        | @blockComment body =>
          rw [ink_cons hslash, ink_cons (lexer.isSpace_mark '*' (by decide)), ink_append,
            ink_cons (lexer.isSpace_mark '*' (by decide)), ink_cons hslash]
          omega
      have hzero : lexer.ink p.text = 0 := by rw [hp]; rfl
      exact ⟨by omega, fun hno => by omega⟩
    · rw [first.text_eq hp, ink_append]
      exact ⟨by omega, fun hge => List.forall_mem_cons.mpr ⟨hp, hnone (by omega)⟩⟩

theorem ink_dropWhile (text : List Char) : lexer.ink (text.dropWhile lexer.isSpace) = lexer.ink text := by
  have hfront := List.takeWhile_append_dropWhile (p := lexer.isSpace) (l := text)
  have hspace : lexer.ink (text.takeWhile lexer.isSpace) = 0 :=
    ink_of_space fun c hc => List.mem_takeWhile_imp hc
  have hink := congrArg lexer.ink hfront
  rw [ink_append] at hink
  omega

theorem ink_reverse (text : List Char) : lexer.ink text.reverse = lexer.ink text := List.countP_reverse

theorem ink_trim (text : List Char) : lexer.ink (lexer.trim text) = lexer.ink text := by
  rw [trim, List.rdropWhile, ink_reverse, ink_dropWhile, ink_reverse, ink_dropWhile]

theorem dropWhile_append_visible {x : Char} (hx : lexer.isSpace x = false) (front back : List Char) :
    (front ++ x :: back).dropWhile lexer.isSpace = front.dropWhile lexer.isSpace ++ x :: back := by
  induction front with
  | nil => exact List.dropWhile_cons_of_neg (by rw [hx]; exact Bool.false_ne_true)
  | cons c front ih =>
    cases hc : lexer.isSpace c with
    | true => rw [List.cons_append, List.dropWhile_cons_of_pos hc, List.dropWhile_cons_of_pos hc, ih]
    | false =>
      have hno : ¬ lexer.isSpace c = true := by rw [hc]; exact Bool.false_ne_true
      rw [List.cons_append, List.dropWhile_cons_of_neg hno, List.dropWhile_cons_of_neg hno, List.cons_append]

/-- Trimming leaves what stands around a visible character in its place. -/
theorem exists_trim_eq {x y : Char} (hx : lexer.isSpace x = false) (hy : lexer.isSpace y = false)
    (front back : List Char) : ∃ front' back', lexer.trim (front ++ x :: y :: back) =
      front' ++ x :: y :: back' ∧ lexer.ink front' = lexer.ink front := by
  refine ⟨front.dropWhile lexer.isSpace, back.rdropWhile lexer.isSpace, ?_, ink_dropWhile front⟩
  rw [trim, dropWhile_append_visible hx, List.rdropWhile, List.reverse_append, List.reverse_cons,
    List.reverse_cons, List.append_assoc, List.append_assoc]
  show (((back.reverse ++ y :: ([x] ++ _)).dropWhile lexer.isSpace).reverse) = _
  rw [dropWhile_append_visible hy, List.reverse_append, List.reverse_cons, List.reverse_append,
    List.reverse_reverse, List.rdropWhile, List.append_assoc, List.append_assoc]
  rfl

/-- With the same tokens no comment was all that kept two pieces apart. -/
theorem not_joined_of_sameTokens (hvalid : ∀ p ∈ pieces, p.Valid)
    (h : lexer.SameTokens pieces (lexer.trim (written pieces))) : ¬ lexer.Joined pieces := by
  rintro ⟨before, p, comments, q, after, rfl, hne, hcomments, x, hx, y, hy, hxspace, hyspace, hjoins⟩
  obtain ⟨read, hread, htokens, -⟩ := h
  have hshown : lexer.ink (written read) = lexer.ink (lexer.trim (written
      (before ++ p :: (comments ++ q :: after)))) := by
    rw [ink_trim, ← ink_tokens hvalid, ← htokens, ink_tokens hread.valid]
  have hplain := (lexer.ink_written_le hread).2 hshown.ge
  -- The last character of the one and the first of the other stand side by side.
  obtain ⟨front, hfront⟩ := List.getLast?_eq_some_iff.mp hx
  obtain ⟨back, hback⟩ := List.head?_eq_some_iff.mp hy
  have hblank : lexer.blank p = false := not_blank_of_mem (List.mem_of_getLast? hx) hxspace
  have hwritten : written (before ++ p :: (comments ++ q :: after)) =
      (written before ++ front) ++ x :: y :: (back ++ written after) := by
    have hnothing : written comments = [] := by
      rw [written, List.flatMap_eq_nil_iff]
      intro piece hpiece
      rw [hcomments piece hpiece]
      rfl
    rw [written_append, written_cons, written_append, hnothing, List.nil_append, written_cons, hfront, hback]
    simp only [List.append_assoc, List.cons_append, List.nil_append]
  obtain ⟨front', back', htrim, hink⟩ := lexer.exists_trim_eq hxspace hyspace (written before ++ front)
    (back ++ written after)
  refine not_joins_of_cut hread hplain (hwritten ▸ htrim) hxspace hyspace ?_ hjoins
  -- Among the tokens of the pieces one ends before the comments, and so among those that were read.
  obtain ⟨first, others, rfl⟩ := List.exists_cons_of_ne_nil hne
  obtain rfl := hcomments first List.mem_cons_self
  have hcut := @mem_cuts_before_comment lexer before (others ++ q :: after) p hblank
  rw [hfront, ← List.append_assoc, ink_append, ink_cons hxspace] at hcut
  rw [htokens, hink]
  exact hcut

theorem tokens_ne_nil_of_joined (h : lexer.Joined pieces) : lexer.tokens pieces ≠ [] := by
  obtain ⟨before, p, comments, q, after, rfl, hne, hcomments, x, hx, -, -, hspace, -⟩ := h
  obtain ⟨first, others, rfl⟩ := List.exists_cons_of_ne_nil hne
  obtain rfl := hcomments first List.mem_cons_self
  intro hnil
  have hcut := @mem_cuts_before_comment lexer before (others ++ q :: after) p
    (not_blank_of_mem (List.mem_of_getLast? hx) hspace)
  rw [List.cons_append] at hnil
  rw [hnil] at hcut
  cases hcut

/-- There are tokens exactly where something is left when the white space around it is dropped. -/
theorem tokens_eq_nil_iff (hvalid : ∀ p ∈ pieces, p.Valid) :
    lexer.tokens pieces = [] ↔ lexer.trim (written pieces) = [] := by
  constructor
  · intro hnil
    have hink : lexer.ink (lexer.tokens pieces).flatten = _ := ink_tokens hvalid
    rw [hnil, List.flatten_nil, ink, ink, List.countP_nil, eq_comm, List.countP_eq_zero] at hink
    have hdrop : (written pieces).dropWhile lexer.isSpace = [] := List.dropWhile_eq_nil_iff.mpr fun c hc => by
      simpa using hink c hc
    rw [trim, hdrop]
    rfl
  · intro hnil
    have hink : lexer.ink (lexer.tokens pieces).flatten = _ := ink_tokens hvalid
    rw [← ink_trim (written pieces), hnil] at hink
    cases htokens : lexer.tokens pieces with
    | nil => rfl
    | cons token others =>
      have hpos : 0 < lexer.ink token := pos_of_mem_cuts hvalid (by rw [htokens]; exact List.mem_cons_self)
      rw [htokens, List.flatten_cons, ink_append] at hink
      change lexer.ink token + _ = 0 at hink
      omega

end SqlLexer

/-! ## Statements -/

theorem semicolonParts_ne_nil (pieces : List Piece) : semicolonParts pieces ≠ [] := by
  induction pieces with
  | nil => exact List.cons_ne_nil _ _
  | cons piece rest ih =>
    cases piece with
    | semicolon => exact List.cons_ne_nil _ _
    | _ =>
      unfold semicolonParts
      split
      · exact List.cons_ne_nil _ _
      · exact List.cons_ne_nil _ _

/-- A piece other than a semicolon goes in front of the first statement of the rest. -/
theorem exists_semicolonParts_cons {piece : Piece} (h : piece ≠ .semicolon) (rest : List Piece) :
    ∃ first others, semicolonParts rest = first :: others ∧ semicolonParts (piece :: rest) = (piece :: first) :: others := by
  obtain ⟨first, others, hrest⟩ := List.exists_cons_of_ne_nil (semicolonParts_ne_nil rest)
  refine ⟨first, others, hrest, ?_⟩
  cases piece with
  | semicolon => exact absurd rfl h
  | char => simp only [semicolonParts, hrest]
  | literal => simp only [semicolonParts, hrest]
  | comment => simp only [semicolonParts, hrest]

theorem head?_semicolonParts {pieces first : List Piece} {others : List (List Piece)}
    (h : semicolonParts pieces = first :: others) : ∀ q ∈ first.head?, q ∈ pieces.head? := by
  intro q hq
  cases pieces with
  | nil =>
    cases h
    cases hq
  | cons piece rest =>
    by_cases hpiece : piece = .semicolon
    · subst hpiece
      cases h
      cases hq
    · obtain ⟨first', others', -, hcons⟩ := exists_semicolonParts_cons hpiece rest
      rw [hcons] at h
      obtain ⟨rfl, -⟩ := List.cons.inj h
      exact hq

/-- The pieces of a statement stand in the text one after another. -/
theorem semicolonParts_spec {pieces : List Piece} (hchain : pieces.IsChain Apart) :
    ∀ segment ∈ semicolonParts pieces, (∀ p ∈ segment, p ∈ pieces) ∧ segment.IsChain Apart := by
  induction pieces with
  | nil => exact List.forall_mem_singleton.mpr ⟨List.forall_mem_nil _, .nil⟩
  | cons piece rest ih =>
    obtain ⟨hhead, htail⟩ := List.isChain_cons.mp hchain
    have hrest : ∀ segment ∈ semicolonParts rest, (∀ p ∈ segment, p ∈ piece :: rest) ∧ segment.IsChain Apart :=
      fun segment hsegment =>
        ⟨fun p hp => List.mem_cons_of_mem _ ((ih htail segment hsegment).1 p hp), (ih htail segment hsegment).2⟩
    by_cases hpiece : piece = .semicolon
    · subst hpiece
      exact List.forall_mem_cons.mpr ⟨⟨List.forall_mem_nil _, .nil⟩, hrest⟩
    · obtain ⟨first, others, hsegments, hcons⟩ := exists_semicolonParts_cons hpiece rest
      rw [hsegments] at hrest
      obtain ⟨⟨hmem, hfirst⟩, hothers⟩ := List.forall_mem_cons.mp hrest
      rw [hcons]
      refine List.forall_mem_cons.mpr ⟨⟨List.forall_mem_cons.mpr ⟨List.mem_cons_self, hmem⟩, ?_⟩, hothers⟩
      exact List.isChain_cons.mpr ⟨fun q hq => hhead q (head?_semicolonParts hsegments q hq), hfirst⟩

/-! ## Every text is read, or ends too early -/

/-- After an opening quote the text goes to the closing one, or the literal is left open. -/
def ClosedOrOpen (quote : Char) (tail : List Char) : Prop :=
  (∃ body rest, LiteralBody quote body ∧ tail = body ++ quote :: rest ∧ rest.head? ≠ some quote) ∨
    (LiteralBody quote tail ∨ ∃ inner, LiteralBody quote inner ∧ tail = inner ++ ['\x5c'])

theorem ClosedOrOpen.prepend {quote : Char} {tail : List Char} (h : ClosedOrOpen quote tail)
    {front : List Char} (hfront : ∀ body, LiteralBody quote body → LiteralBody quote (front ++ body)) :
    ClosedOrOpen quote (front ++ tail) := by
  rcases h with ⟨body, rest, hbody, rfl, hend⟩ | hopen | ⟨inner, hinner, rfl⟩
  · exact .inl ⟨front ++ body, rest, hfront body hbody, (List.append_assoc _ _ _).symm, hend⟩
  · exact .inr (.inl (hfront tail hopen))
  · exact .inr (.inr ⟨front ++ inner, hfront inner hinner, (List.append_assoc _ _ _).symm⟩)

theorem closedOrOpen (quote : Char) (tail : List Char) : ClosedOrOpen quote tail := by
  induction hlength : tail.length using Nat.strong_induction_on generalizing tail with
  | h n ih =>
    subst hlength
    match tail with
    | [] => exact .inr (.inl .nil)
    | [c] =>
      by_cases hc : c = '\x5c'
      · exact .inr (.inr ⟨[], .nil, by rw [hc]; rfl⟩)
      by_cases hquote : c = quote
      · exact .inl ⟨[], [], .nil, by rw [hquote]; rfl, fun hno => by cases hno⟩
      · exact .inr (.inl (.char hc hquote .nil))
    | c :: d :: rest =>
      have hrest := ih rest.length (by simp only [List.length_cons]; omega) rest rfl
      by_cases hc : c = '\x5c'
      · subst hc
        exact @ClosedOrOpen.prepend quote rest hrest ['\x5c', d] fun _ => .escape
      by_cases hquote : c = quote
      · subst hquote
        by_cases hd : d = c
        · subst hd
          exact @ClosedOrOpen.prepend d rest hrest [d, d] fun _ => .doubled
        · exact .inl ⟨[], d :: rest, .nil, rfl, fun hno => hd (Option.some.inj hno)⟩
      · have htail := ih (d :: rest).length (by simp only [List.length_cons]; omega) (d :: rest) rfl
        exact @ClosedOrOpen.prepend quote (d :: rest) htail [c] fun _ => .char hc hquote

theorem infix_pair_cons {x y c : Char} {text : List Char} (h : [x, y] <:+: c :: text) :
    c = x ∧ text.head? = some y ∨ [x, y] <:+: text := by
  rcases List.infix_cons_iff.mp h with hfront | hinner
  · obtain ⟨hc, rest, rfl⟩ := List.cons_prefix_cons.mp hfront
    exact .inl ⟨hc.symm, rfl⟩
  · exact .inr hinner

/-- A block comment is closed at the first mark, or never. -/
theorem block_cases (tail : List Char) :
    (∃ body rest, tail = body ++ '*' :: '/' :: rest ∧ ¬ ['*', '/'] <:+: body ++ ['*']) ∨
      ¬ ['*', '/'] <:+: tail := by
  induction tail with
  | nil => exact .inr fun h => absurd h.length_le (by decide)
  | cons c rest ih =>
    by_cases hclose : c = '*' ∧ rest.head? = some '/'
    · obtain ⟨rfl, hhead⟩ := hclose
      obtain ⟨rest, rfl⟩ := List.head?_eq_some_iff.mp hhead
      exact .inl ⟨[], rest, rfl, fun h => absurd h.length_le (by decide)⟩
    rcases ih with ⟨body, after, rfl, hbody⟩ | hopen
    · refine .inl ⟨c :: body, after, rfl, fun h => ?_⟩
      rcases infix_pair_cons h with ⟨rfl, hhead⟩ | hinner
      · -- The mark would have begun one character earlier.
        cases body with
        | nil => cases hhead
        | cons d body => exact hclose ⟨rfl, hhead⟩
      · exact hbody hinner
    · refine .inr fun h => ?_
      rcases infix_pair_cons h with hfront | hinner
      · exact hclose hfront
      · exact hopen hinner

theorem exists_reads_or_open (c : Char) (tail : List Char) :
    (∃ piece rest, ReadsPiece (c :: tail) piece rest) ∨ Unterminated (c :: tail) := by
  by_cases hquote : isQuote c = true
  · rcases closedOrOpen c tail with ⟨body, rest, hbody, rfl, hend⟩ | hopen
    · exact .inl ⟨_, _, .literal hquote hbody hend⟩
    · exact .inr (.quote hquote hopen)
  by_cases hsemicolon : c = ';'
  · subst hsemicolon
    exact .inl ⟨_, _, .semicolon⟩
  by_cases hopen : ∀ d ∈ tail.head?, ¬ Meets c d
  · exact .inl ⟨_, _, .char (eq_false_of_ne_true hquote) hsemicolon hopen⟩
  simp only [not_forall, not_not] at hopen
  obtain ⟨d, hd, hmeets⟩ := hopen
  obtain ⟨tail, rfl⟩ := List.head?_eq_some_iff.mp hd
  rcases hmeets with ⟨rfl, rfl⟩ | ⟨rfl, rfl⟩ | ⟨-, hno⟩
  · have hend : ∀ d ∈ (tail.dropWhile (· ≠ '\n')).head?, d = '\n' := by
      intro d hd
      have hstop := List.head?_dropWhile_not (· ≠ '\n') tail
      rw [hd] at hstop
      simpa using hstop
    have hbody : '\n' ∉ tail.takeWhile (· ≠ '\n') := fun hmem => by
      simpa using List.mem_takeWhile_imp hmem
    have hreads := ReadsPiece.lineComment hbody hend
    rw [List.takeWhile_append_dropWhile] at hreads
    exact .inl ⟨_, _, hreads⟩
  · rcases block_cases tail with ⟨body, rest, rfl, hbody⟩ | hopen
    · exact .inl ⟨_, _, .blockComment hbody⟩
    · exact .inr (.block hopen)
  · exact absurd hno hquote

theorem lexes_or_unterminated (text : List Char) : (∃ pieces, Lexes text pieces) ∨ Unterminated text := by
  induction hlength : text.length using Nat.strong_induction_on generalizing text with
  | h n ih =>
    subst hlength
    cases text with
    | nil => exact .inl ⟨[], .nil⟩
    | cons c tail =>
      rcases exists_reads_or_open c tail with ⟨piece, rest, hreads⟩ | hopen
      · rcases ih rest.length hreads.length_lt rest rfl with ⟨pieces, hpieces⟩ | hopen
        · exact .inl ⟨piece :: pieces, .cons hreads hpieces⟩
        · exact .inr (.cons hreads hopen)
      · exact .inr hopen

end RpcStateIndexer.Reasoning
