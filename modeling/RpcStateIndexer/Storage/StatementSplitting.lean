import RpcStateIndexer.Reasoning.SqlText
import RpcStateIndexer.Storage.Migrations

/-!
# Splitting SQL into statements

`split_sql_statements` against the grammar of SQL text.  A line comment leaves its newline in the
statement; a block comment leaves nothing, and what it kept apart is joined.
-/

namespace RpcStateIndexer

open Reasoning

theorem isPythonSpace_quote (c : Char) (hc : isQuote c = true) : isPythonSpace c = false := by
  simp only [isQuote, Bool.or_eq_true, decide_eq_true_eq] at hc
  rcases hc with (rfl | rfl) | rfl <;> rfl

theorem isPythonSpace_mark (c : Char) (hc : c ∈ [';', '-', '/', '*']) : isPythonSpace c = false := by
  simp only [List.mem_cons, List.not_mem_nil, or_false] at hc
  rcases hc with rfl | rfl | rfl | rfl <;> rfl

/-- The lexer's white space is what `str.strip` removes; what it takes for one token is its own. -/
def sqlLexer (glue : Char → Char → Bool) : SqlLexer where
  isSpace := isPythonSpace
  glue := glue
  isSpace_quote := isPythonSpace_quote
  isSpace_mark := isPythonSpace_mark

/-! ## One piece -/

section Scan

variable {buffer : List Char} {statements : List String}

theorem scanSql_plain_pair (c d : Char) (rest : List Char) :
    scanSql .plain buffer statements (c :: d :: rest) =
      if c = '-' ∧ d = '-' then scanSql .lineComment buffer statements rest
      else if c = '/' ∧ d = '*' then scanSql .blockComment buffer statements rest
      else if c = '\x27' ∨ c = '\x22' ∨ c = '\x60' then
        scanSql (.quoted c) (buffer ++ [c]) statements (d :: rest)
      else if c = ';' then scanSql .plain [] (flush statements buffer) (d :: rest)
      else scanSql .plain (buffer ++ [c]) statements (d :: rest) := rfl

theorem scanSql_plain_last (c : Char) :
    scanSql .plain buffer statements [c] =
      if c = '\x27' ∨ c = '\x22' ∨ c = '\x60' then scanSql (.quoted c) (buffer ++ [c]) statements []
      else if c = ';' then scanSql .plain [] (flush statements buffer) []
      else scanSql .plain (buffer ++ [c]) statements [] := rfl

theorem scanSql_quoted_two (quote c d : Char) (rest : List Char) :
    scanSql (.quoted quote) buffer statements (c :: d :: rest) =
      if c = '\x5c' ∨ c = quote ∧ d = quote then scanSql (.quoted quote) (buffer ++ [c, d]) statements rest
      else scanSql (if c = quote then .plain else .quoted quote) (buffer ++ [c]) statements (d :: rest) := rfl

theorem scanSql_quoted_last (quote c : Char) :
    scanSql (.quoted quote) buffer statements [c] =
      scanSql (if c = quote then .plain else .quoted quote) (buffer ++ [c]) statements [] := rfl

theorem scanSql_line_cons (c : Char) (rest : List Char) :
    scanSql .lineComment buffer statements (c :: rest) =
      if c = '\n' then scanSql .plain (buffer ++ ['\n']) statements rest
      else scanSql .lineComment buffer statements rest := rfl

theorem scanSql_block_pair (c d : Char) (rest : List Char) :
    scanSql .blockComment buffer statements (c :: d :: rest) =
      if c = '*' ∧ d = '/' then scanSql .plain buffer statements rest
      else scanSql .blockComment buffer statements (d :: rest) := rfl

theorem scanSql_quote {c : Char} (h : isQuote c = true) (rest : List Char) :
    scanSql .plain buffer statements (c :: rest) = scanSql (.quoted c) (buffer ++ [c]) statements rest := by
  have hquote : c = '\x27' ∨ c = '\x22' ∨ c = '\x60' := by
    simpa only [isQuote, Bool.or_eq_true, decide_eq_true_eq, or_assoc] using h
  have hdash : c ≠ '-' := by rintro rfl; revert h; decide
  have hslash : c ≠ '/' := by rintro rfl; revert h; decide
  cases rest with
  | nil => rw [scanSql_plain_last, if_pos hquote]
  | cons d rest =>
    rw [scanSql_plain_pair, if_neg fun hno => hdash hno.1, if_neg fun hno => hslash hno.1, if_pos hquote]

theorem scanSql_semicolon (rest : List Char) :
    scanSql .plain buffer statements (';' :: rest) = scanSql .plain [] (flush statements buffer) rest := by
  cases rest with
  | nil => rfl
  | cons d rest =>
    rw [scanSql_plain_pair, if_neg fun hno => absurd hno.1 (by decide), if_neg fun hno => absurd hno.1 (by decide),
      if_neg (by decide), if_pos rfl]

theorem scanSql_char {c : Char} (hquote : isQuote c = false) (hsemicolon : c ≠ ';') {rest : List Char}
    (hopen : ∀ d ∈ rest.head?, ¬ Meets c d) :
    scanSql .plain buffer statements (c :: rest) = scanSql .plain (buffer ++ [c]) statements rest := by
  have hplain : ¬ (c = '\x27' ∨ c = '\x22' ∨ c = '\x60') := by
    intro hno
    have hyes : isQuote c = true := by
      simpa only [isQuote, Bool.or_eq_true, decide_eq_true_eq, or_assoc] using hno
    rw [hquote] at hyes
    cases hyes
  cases rest with
  | nil => rw [scanSql_plain_last, if_neg hplain, if_neg hsemicolon]
  | cons d rest =>
    have hnone := hopen d rfl
    rw [scanSql_plain_pair, if_neg fun hno => hnone (.inl hno), if_neg fun hno => hnone (.inr (.inl hno)),
      if_neg hplain, if_neg hsemicolon]

/-- Inside a literal two characters count as one where the first escapes, or both are the quote. -/
theorem scanSql_quoted_pair {quote c d : Char} (h : c = '\x5c' ∨ c = quote ∧ d = quote) (rest : List Char) :
    scanSql (.quoted quote) buffer statements (c :: d :: rest) =
      scanSql (.quoted quote) (buffer ++ [c, d]) statements rest := by
  rw [scanSql_quoted_two, if_pos h]

theorem scanSql_quoted_char {quote c : Char} (hescape : c ≠ '\x5c') (hquote : c ≠ quote) (rest : List Char) :
    scanSql (.quoted quote) buffer statements (c :: rest) =
      scanSql (.quoted quote) (buffer ++ [c]) statements rest := by
  cases rest with
  | nil => rw [scanSql_quoted_last, if_neg hquote]
  | cons d rest =>
    rw [scanSql_quoted_two, if_neg (not_or.mpr ⟨hescape, fun hno => hquote hno.1⟩), if_neg hquote]

theorem scanSql_quoted_end {quote : Char} (hescape : quote ≠ '\x5c') {rest : List Char}
    (hend : rest.head? ≠ some quote) :
    scanSql (.quoted quote) buffer statements (quote :: rest) =
      scanSql .plain (buffer ++ [quote]) statements rest := by
  cases rest with
  | nil => rw [scanSql_quoted_last, if_pos rfl]
  | cons d rest =>
    have hd : d ≠ quote := fun hno => hend (congrArg some hno)
    rw [scanSql_quoted_two, if_neg (not_or.mpr ⟨hescape, fun hno => hd hno.2⟩), if_pos rfl]

/-- The inside of a literal is copied, whatever it holds. -/
theorem scanSql_body {quote : Char} {body : List Char} (hbody : LiteralBody quote body) (rest : List Char)
    (buffer : List Char) : scanSql (.quoted quote) buffer statements (body ++ rest) =
      scanSql (.quoted quote) (buffer ++ body) statements rest := by
  induction hbody generalizing buffer with
  | nil => rw [List.nil_append, List.append_nil]
  | escape _ ih =>
    rw [List.cons_append, List.cons_append, scanSql_quoted_pair (.inl rfl), ih, List.append_assoc]
    rfl
  | doubled _ ih =>
    rw [List.cons_append, List.cons_append, scanSql_quoted_pair (.inr ⟨rfl, rfl⟩), ih, List.append_assoc]
    rfl
  | char hescape hquote _ ih =>
    rw [List.cons_append, scanSql_quoted_char hescape hquote, ih, List.append_assoc]
    rfl

theorem quote_ne_escape {quote : Char} (h : isQuote quote = true) : quote ≠ '\x5c' := by
  rintro rfl
  revert h
  decide

/-- A line comment is passed over up to its newline, which is kept. -/
theorem scanSql_lineComment {body rest : List Char} (hbody : '\n' ∉ body)
    (hend : ∀ d ∈ rest.head?, d = '\n') :
    scanSql .lineComment buffer statements (body ++ rest) = scanSql .plain buffer statements rest := by
  induction body with
  | nil =>
    cases rest with
    | nil => rfl
    | cons d rest =>
      obtain rfl := hend d rfl
      have hnone : ∀ d ∈ rest.head?, ¬ Meets '\n' d := by
        rintro d - (⟨h, -⟩ | ⟨h, -⟩ | ⟨-, h⟩)
        · exact absurd h (by decide)
        · exact absurd h (by decide)
        · exact absurd h (by decide)
      rw [List.nil_append, scanSql_line_cons, if_pos rfl, scanSql_char (by decide) (by decide) hnone]
  | cons c body ih =>
    rw [List.mem_cons, not_or] at hbody
    rw [List.cons_append, scanSql_line_cons, if_neg (Ne.symm hbody.1), ih hbody.2]

/-- A block comment is passed over whole. -/
theorem scanSql_blockComment {body : List Char} (hbody : ¬ ['*', '/'] <:+: body ++ ['*'])
    (rest : List Char) : scanSql .blockComment buffer statements (body ++ '*' :: '/' :: rest) =
      scanSql .plain buffer statements rest := by
  induction body with
  | nil => rw [List.nil_append, scanSql_block_pair, if_pos ⟨rfl, rfl⟩]
  | cons c body ih =>
    have hrest := ih fun hno => hbody (hno.trans (List.suffix_cons _ _).isInfix)
    cases body with
    | nil =>
      rw [List.cons_append, List.nil_append, scanSql_block_pair, if_neg fun hno => absurd hno.2 (by decide)]
      exact hrest
    | cons d body =>
      have hnone : ¬ (c = '*' ∧ d = '/') := by
        rintro ⟨rfl, rfl⟩
        exact hbody ⟨[], body ++ ['*'], rfl⟩
      rw [List.cons_append, List.cons_append, scanSql_block_pair, if_neg hnone]
      exact hrest

/-- What is done with a piece: a semicolon ends the statement, and any other is written. -/
theorem scanSql_of_reads {text rest : List Char} {piece : Piece} (h : ReadsPiece text piece rest) :
    scanSql .plain buffer statements text =
      if piece = .semicolon then scanSql .plain [] (flush statements buffer) rest
      else scanSql .plain (buffer ++ piece.text) statements rest := by
  cases h with
  | char hquote hsemicolon hopen => exact scanSql_char hquote hsemicolon hopen
  | semicolon => exact scanSql_semicolon rest
  | @literal quote body _ hquote hbody hend =>
    rw [if_neg Piece.noConfusion, scanSql_quote hquote, scanSql_body hbody,
      scanSql_quoted_end (quote_ne_escape hquote) hend]
    simp only [Piece.text, List.append_assoc, List.cons_append, List.nil_append]
  | lineComment hbody hend =>
    rw [if_neg Piece.noConfusion, scanSql_plain_pair, if_pos ⟨rfl, rfl⟩, scanSql_lineComment hbody hend]
    exact congrArg (scanSql .plain · statements rest) (List.append_nil buffer).symm
  | blockComment hbody =>
    rw [if_neg Piece.noConfusion, scanSql_plain_pair, if_neg fun hno => absurd hno.1 (by decide),
      if_pos ⟨rfl, rfl⟩, scanSql_blockComment hbody]
    exact congrArg (scanSql .plain · statements rest) (List.append_nil buffer).symm

end Scan

/-! ## A whole text -/

/-- The statement that is kept of a buffer, if any. -/
def statementsOf (buffer : List Char) : List String :=
  if strip buffer = [] then [] else [String.ofList (strip buffer)]

theorem flush_eq (statements : List String) (buffer : List Char) :
    flush statements buffer = statements ++ statementsOf buffer := by
  unfold flush statementsOf
  split
  · exact (List.append_nil statements).symm
  · rfl

/-- The buffer is the start of the first statement. -/
theorem scanSql_of_lexes {text : List Char} {pieces first : List Piece} {others : List (List Piece)}
    (h : Lexes text pieces) (hsegments : semicolonParts pieces = first :: others) (buffer : List Char)
    (statements : List String) : scanSql .plain buffer statements text =
      .ok (statements ++ (statementsOf (buffer ++ written first) ++
        others.flatMap fun segment => statementsOf (written segment))) := by
  induction h generalizing first others buffer statements with
  | nil =>
    obtain ⟨rfl, rfl⟩ := List.cons.inj hsegments
    show Except.ok (flush statements buffer) = _
    rw [flush_eq]
    show _ = Except.ok (statements ++ (statementsOf (buffer ++ []) ++ []))
    rw [List.append_nil, List.append_nil]
  | @cons text rest piece pieces hreads tail ih =>
    obtain ⟨first', others', hrest⟩ := List.exists_cons_of_ne_nil (semicolonParts_ne_nil pieces)
    rw [scanSql_of_reads hreads]
    by_cases hpiece : piece = .semicolon
    · subst hpiece
      rw [if_pos rfl, ih hrest, flush_eq, List.nil_append, List.append_assoc]
      rw [semicolonParts, hrest] at hsegments
      obtain ⟨rfl, rfl⟩ := List.cons.inj hsegments
      show _ = Except.ok (statements ++ (statementsOf (buffer ++ []) ++ _))
      rw [List.append_nil, List.flatMap_cons]
    · obtain ⟨first'', others'', hrest', hcons⟩ := exists_semicolonParts_cons hpiece pieces
      rw [if_neg hpiece, ih hrest']
      rw [hcons] at hsegments
      obtain ⟨rfl, rfl⟩ := List.cons.inj hsegments
      rw [SqlLexer.written_cons, List.append_assoc]

theorem splitSqlStatements_of_lexes {sql : String} {pieces : List Piece} (h : Lexes sql.toList pieces) :
    splitSqlStatements sql = .ok ((semicolonParts pieces).flatMap fun segment => statementsOf (written segment)) := by
  obtain ⟨first, others, hsegments⟩ := List.exists_cons_of_ne_nil (semicolonParts_ne_nil pieces)
  rw [splitSqlStatements, scanSql_of_lexes h hsegments, hsegments, List.flatMap_cons]
  rfl

theorem scanSql_blockComment_open {body : List Char} (hbody : ¬ ['*', '/'] <:+: body) (buffer : List Char)
    (statements : List String) : scanSql .blockComment buffer statements body =
      .error (.migrationError "unterminated block comment in migration") := by
  induction body with
  | nil => rfl
  | cons c body ih =>
    have hrest := ih fun hno => hbody (hno.trans (List.suffix_cons _ _).isInfix)
    cases body with
    | nil => rfl
    | cons d body =>
      have hnone : ¬ (c = '*' ∧ d = '/') := by
        rintro ⟨rfl, rfl⟩
        exact hbody ⟨[], body, rfl⟩
      rw [scanSql_block_pair, if_neg hnone]
      exact hrest

theorem exists_error_of_unterminated {text : List Char} (h : Unterminated text) (buffer : List Char)
    (statements : List String) :
    ∃ message, scanSql .plain buffer statements text = .error (.migrationError message) := by
  induction h generalizing buffer statements with
  | @quote quote body hquote hbody =>
    refine ⟨"unterminated quoted string in migration", ?_⟩
    rw [scanSql_quote hquote]
    rcases hbody with hbody | ⟨inner, hinner, rfl⟩
    · have hscan : scanSql (.quoted quote) (buffer ++ [quote]) statements (body ++ []) = _ :=
        scanSql_body hbody [] (buffer ++ [quote])
      rw [List.append_nil] at hscan
      exact hscan
    · -- A last backslash has nothing to escape.
      rw [scanSql_body hinner, scanSql_quoted_last, if_neg (quote_ne_escape hquote).symm]
      rfl
  | @block body hbody =>
    refine ⟨"unterminated block comment in migration", ?_⟩
    rw [scanSql_plain_pair, if_neg fun hno => absurd hno.1 (by decide), if_pos ⟨rfl, rfl⟩]
    exact scanSql_blockComment_open hbody buffer statements
  | @cons text rest piece hreads _ ih =>
    rw [scanSql_of_reads hreads]
    split
    · exact ih _ _
    · exact ih _ _

/-! ## Faithful splitting -/

/-- The statements are those of the text: as many, in order, each with the tokens and the literals that its
pieces have when a comment counts as white space; and an open quote or comment raises. -/
structure SplitsFaithfully (glue : Char → Char → Bool) (sql : String) : Prop where
  raises : (∃ message, splitSqlStatements sql = .error (.migrationError message)) ↔ Unterminated sql.toList
  returns : ∀ pieces, Lexes sql.toList pieces → ∃ statements, splitSqlStatements sql = .ok statements ∧
    List.Forall₂ (fun segment statement => (sqlLexer glue).SameTokens segment statement.toList)
      ((semicolonParts pieces).filter fun segment => (sqlLexer glue).tokens segment ≠ []) statements

/-- Of the items that are kept each makes one entry, and the others none. -/
theorem forall₂_filter_iff {α β : Type} {R : α → β → Prop} {kept : α → Bool} {entries : α → List β}
    {entry : α → β} {items : List α}
    (hentries : ∀ item ∈ items, entries item = if kept item then [entry item] else []) :
    List.Forall₂ R (items.filter kept) (items.flatMap entries) ↔
      ∀ item ∈ items, kept item = true → R item (entry item) := by
  induction items with
  | nil => exact iff_of_true .nil (List.forall_mem_nil _)
  | cons item items ih =>
    obtain ⟨hitem, hitems⟩ := List.forall_mem_cons.mp hentries
    rw [List.flatMap_cons, hitem, List.forall_mem_cons]
    cases hkept : kept item with
    | true =>
      rw [List.filter_cons_of_pos hkept, if_pos rfl, List.singleton_append, List.forall₂_cons, ih hitems]
      exact and_congr_left fun _ => ⟨fun h _ => h, fun h => h rfl⟩
    | false =>
      rw [List.filter_cons_of_neg (by rw [hkept]; exact Bool.false_ne_true), if_neg Bool.false_ne_true,
        List.nil_append, ih hitems]
      exact (and_iff_right fun hno => by cases hno).symm

theorem raises_iff (sql : String) :
    (∃ message, splitSqlStatements sql = .error (.migrationError message)) ↔ Unterminated sql.toList := by
  constructor
  · rintro ⟨message, herror⟩
    rcases lexes_or_unterminated sql.toList with ⟨pieces, hpieces⟩ | hopen
    · rw [splitSqlStatements_of_lexes hpieces] at herror
      cases herror
    · exact hopen
  · exact fun hopen => exists_error_of_unterminated hopen [] []

/-- The statements of a text match its pieces exactly where those of each statement do. -/
theorem returns_iff (glue : Char → Char → Bool) {sql : String} {pieces : List Piece}
    (hpieces : Lexes sql.toList pieces) :
    (∃ statements, splitSqlStatements sql = .ok statements ∧
        List.Forall₂ (fun segment statement => (sqlLexer glue).SameTokens segment statement.toList)
          ((semicolonParts pieces).filter fun segment => (sqlLexer glue).tokens segment ≠ []) statements) ↔
      ∀ segment ∈ semicolonParts pieces, ¬ (sqlLexer glue).Joined segment := by
  have hspec := semicolonParts_spec hpieces.chain
  have hvalid : ∀ segment ∈ semicolonParts pieces, ∀ p ∈ segment, p.Valid := fun segment hsegment p hp =>
    hpieces.valid p ((hspec segment hsegment).1 p hp)
  have hentries : ∀ segment ∈ semicolonParts pieces, statementsOf (written segment) =
      if decide ((sqlLexer glue).tokens segment ≠ []) then [String.ofList (strip (written segment))] else [] := by
    intro segment hsegment
    have hnil := (sqlLexer glue).tokens_eq_nil_iff (hvalid segment hsegment)
    unfold statementsOf
    by_cases hempty : strip (written segment) = []
    · rw [if_pos hempty, if_neg (by simpa using hnil.mpr hempty)]
    · rw [if_neg hempty, if_pos (by simpa using fun hno => hempty (hnil.mp hno))]
  have hmatch : (∃ statements, splitSqlStatements sql = .ok statements ∧
      List.Forall₂ (fun segment statement => (sqlLexer glue).SameTokens segment statement.toList)
        ((semicolonParts pieces).filter fun segment => (sqlLexer glue).tokens segment ≠ []) statements) ↔
      List.Forall₂ (fun segment statement => (sqlLexer glue).SameTokens segment statement.toList)
        ((semicolonParts pieces).filter fun segment => (sqlLexer glue).tokens segment ≠ [])
        ((semicolonParts pieces).flatMap fun segment => statementsOf (written segment)) := by
    rw [splitSqlStatements_of_lexes hpieces]
    exact ⟨fun ⟨_, hsome, h⟩ => Except.ok.inj hsome ▸ h, fun h => ⟨_, rfl, h⟩⟩
  rw [hmatch, forall₂_filter_iff hentries]
  refine forall₂_congr fun segment hsegment => ?_
  simp only [String.toList_ofList, decide_eq_true_eq]
  constructor
  · intro h hjoined
    exact SqlLexer.not_joined_of_sameTokens (hvalid segment hsegment)
      (h (SqlLexer.tokens_ne_nil_of_joined hjoined)) hjoined
  · intro hjoined _
    exact SqlLexer.sameTokens_of_not_joined (hvalid segment hsegment) (hspec segment hsegment).2 hjoined

/-- The splitting is faithful exactly where no comment is all that keeps two pieces of a statement apart. -/
theorem splitSqlStatements_faithful_iff (glue : Char → Char → Bool) (sql : String) :
    SplitsFaithfully glue sql ↔ ∀ pieces, Lexes sql.toList pieces →
      ∀ segment ∈ semicolonParts pieces, ¬ (sqlLexer glue).Joined segment := by
  constructor
  · exact fun h pieces hpieces => (returns_iff glue hpieces).mp (h.returns pieces hpieces)
  · exact fun h => ⟨raises_iff sql, fun pieces hpieces => (returns_iff glue hpieces).mpr (h pieces hpieces)⟩

/-- `SELECT` and `1` become one word. -/
theorem words_are_joined :
    ¬ SplitsFaithfully (fun x y => x.isAlphanum && y.isAlphanum) "SELECT/**/1" := by
  intro h
  have htext : "SELECT/**/1".toList = ['S', 'E', 'L', 'E', 'C', 'T', '/', '*', '*', '/', '1'] := by
    decide +kernel
  have hword : ∀ (c d : Char) (rest : List Char), isQuote c = false → c ≠ ';' → ¬ Meets c d →
      ReadsPiece (c :: d :: rest) (.char c) (d :: rest) := fun c d rest hquote hsemicolon hopen =>
    .char hquote hsemicolon fun e he => Option.some.inj he ▸ hopen
  have hpieces : Lexes "SELECT/**/1".toList
      [.char 'S', .char 'E', .char 'L', .char 'E', .char 'C', .char 'T', .comment, .char '1'] := by
    rw [htext]
    refine .cons (hword _ _ _ ?_ ?_ ?_) (.cons (hword _ _ _ ?_ ?_ ?_) (.cons (hword _ _ _ ?_ ?_ ?_)
      (.cons (hword _ _ _ ?_ ?_ ?_) (.cons (hword _ _ _ ?_ ?_ ?_) (.cons (hword _ _ _ ?_ ?_ ?_)
        (.cons (@ReadsPiece.blockComment [] ['1'] ?_) (.cons (.char ?_ ?_ fun _ hno => by cases hno) .nil)))))))
    all_goals decide
  refine (returns_iff _ hpieces).mp (h.returns _ hpieces) _ List.mem_cons_self ?_
  exact ⟨[.char 'S', .char 'E', .char 'L', .char 'E', .char 'C'], .char 'T', [.comment], .char '1', [], rfl,
    by decide, by decide, 'T', rfl, '1', rfl, by decide, by decide, .inl (by decide)⟩

end RpcStateIndexer
