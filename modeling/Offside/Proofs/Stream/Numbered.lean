import Offside.NumberedLexer
import Offside.Proofs.Scanner.Places
import Offside.Proofs.Stream.Draining
/-!
# Records of a text

A lexer that numbers its token types may cut a text anywhere.  Where its records say what it read, their tokens stand
side by side in the text, each where the one before it stops (`source_recordsBehind`).  Columns from zero and from one,
the last character of a piece and the place behind it, and the column behind a line feed all come together in the place
behind a piece of text (`Cursor.behind`).

So if the lexer cuts the text as a word scanner does, and names its types as the scanner does, the tokens are the
scanner's, and a stream over them gives what a stream over the scanner gives.
-/
namespace Offside

/-! ## Records -/

namespace NumberedLexer

/-- A piece that a lexer cuts from a text, and the number of its type. -/
structure Piece where
  id : Int
  text : String

/-- The record of a piece behind some text, as a lexer makes it that counts columns from zero. -/
def Piece.record (front : List Char) (p : Piece) : Record :=
  { type := .int p.id
    text := .text p.text
    first := .int front.length
    last := .int (front.length + p.text.length - 1)
    line := .int (front.count '\n' + 1)
    column := .int (Text.lastLine front).length }

/-- The token of a piece behind some text: it starts where that text ends and stops where the two end. -/
def Piece.token (names : Names) (front : List Char) (p : Piece) : Token :=
  { type := nameIn names (.integer p.id)
    value := p.text
    start := (Cursor.behind front).place
    stop := (Cursor.behind (front ++ p.text.toList)).place
    level := none }

def recordsBehind (front : List Char) : List Piece → List Record
  | [] => []
  | p :: ps => p.record front :: recordsBehind (front ++ p.text.toList) ps

def tokensBehind (names : Names) (front : List Char) : List Piece → List Token
  | [] => []
  | p :: ps => p.token names front :: tokensBehind names (front ++ p.text.toList) ps

/-- The token of a record is the token of its piece.  Where the piece has a line feed, its last line begins behind it;
where it has none, it goes on in the line in front of it. -/
theorem token_record (names : Names) (front : List Char) (p : Piece) :
    (p.record front).token names = .ok (p.token names front) := by
  have htoken := Record.token_of_text names p.id front.length (front.length + p.text.length - 1)
    (front.count '\n' + 1) (Text.lastLine front).length p.text
  have hoffset : (front.length + p.text.length - 1 + 1 : Int) = (front ++ p.text.toList).length := by
    rw [List.length_append, String.length_toList]
    omega
  have hline : (front.count '\n' + 1 + p.text.toList.count '\n' : Int) =
      ((front ++ p.text.toList).count '\n' + 1 : Nat) := by
    rw [List.count_append]
    omega
  have hcolumn : (if p.text.toList.contains '\n' then ((Text.lastLine p.text.toList).length + 1 : Int)
      else (Text.lastLine front).length + 1 + p.text.length) =
        ((Text.lastLine (front ++ p.text.toList)).length + 1 : Nat) := by
    rw [Text.lastLine_append]
    by_cases h : '\n' ∈ p.text.toList
    · simp [h]
    · simp only [List.contains_eq_mem, h, decide_false, Bool.false_eq_true, if_false, List.length_append,
        String.length_toList]
      omega
  rw [Piece.record, htoken, hoffset, hline, hcolumn]
  rfl

theorem posPow_pos {base : Nat} (h : 0 < base) (e : Int) : 0 < Decimal.posPow base e :=
  Nat.pow_pos h

/-- Numbers that are the same as types are the same. -/
theorem key_integer_inj {m n : Int} (h : (TokenType.integer m).key = (TokenType.integer n).key) : m = n := by
  have hsteps : m * (Decimal.posPow 2 1074 : Nat) = n * (Decimal.posPow 2 1074 : Nat) := TokenType.Key.number.inj h
  have hpos : 0 < Decimal.posPow 2 1074 := posPow_pos (by decide) 1074
  exact Int.eq_of_mul_eq_mul_right (by omega) hsteps

theorem isEnd_record {p : Piece} (h : p.id ≠ -1) (front : List Char) : (p.record front).isEnd = false :=
  beq_eq_false_iff_ne.2 fun hkey => h (key_integer_inj hkey)

/-- **The records of the pieces of a text make the tokens of the pieces**, up to the record of the end or to where the
lexer gives none; what would come behind that is not asked for. -/
theorem source_recordsBehind (names : Names) {last : Option Record} (hlast : ∀ r ∈ last, r.isEnd = true)
    (more : List (Option Record)) {pieces : List Piece} (hids : ∀ p ∈ pieces, p.id ≠ -1) (front : List Char) :
    source names ((recordsBehind front pieces).map some ++ last :: more) =
      Source.ofTokens (tokensBehind names front pieces) ++ [.done] := by
  induction pieces generalizing front with
  | nil =>
    cases last with
    | none => rfl
    | some r =>
      show source names (some r :: more) = _
      rw [source, if_pos (hlast r rfl)]
      rfl
  | cons p pieces ih =>
    obtain ⟨hp, hids⟩ := List.forall_mem_cons.1 hids
    have hend : (p.record front).isEnd = false := isEnd_record hp front
    show source names (some (p.record front) :: ((recordsBehind _ pieces).map some ++ last :: more)) = _
    rw [source, hend, if_neg Bool.false_ne_true, token_record]
    exact congrArg (Reply.token (p.token names front) :: ·) (ih hids _)

theorem length_tokensBehind (names : Names) : ∀ (front : List Char) (pieces : List Piece),
    (tokensBehind names front pieces).length = pieces.length
  | _, [] => rfl
  | _, _ :: pieces => congrArg (· + 1) (length_tokensBehind names _ pieces)

theorem getElem?_tokensBehind (names : Names) (p : Piece) (after : List Piece) : ∀ (before : List Piece)
    (front : List Char), (tokensBehind names front (before ++ p :: after))[before.length]? =
      some (p.token names (front ++ before.flatMap (fun q => q.text.toList)))
  | [], front => by simp [tokensBehind]
  | q :: before, front => by
    rw [List.flatMap_cons, ← List.append_assoc]
    exact getElem?_tokensBehind names p after before _

/-- Pieces that are cut and named as the tokens of a word scanner make these tokens. -/
theorem tokensBehind_of_tiled {names : Names} {pos : Cursor} {ts : List Token} (h : Tiled pos ts) :
    ∀ {pieces : List Piece} {front : List Char}, pos = .behind front → pieces.map Piece.text = ts.map Token.value →
      pieces.map (fun p => nameIn names (.integer p.id)) = ts.map Token.type →
      tokensBehind names front pieces = ts := by
  induction h with
  | nil =>
    intro pieces front _ htexts _
    rw [List.map_nil, List.map_eq_nil_iff] at htexts
    rw [htexts]
    rfl
  | @cons pos type text ts _ _ ih =>
    intro pieces front hpos htexts htypes
    subst hpos
    cases pieces with
    | nil => cases htexts
    | cons p pieces =>
      obtain ⟨htext, htexts⟩ := List.cons.inj htexts
      obtain ⟨htype, htypes⟩ := List.cons.inj htypes
      have htoList : p.text.toList = text := by rw [htext, tokenAt, String.toList_ofList]
      have hstop := Cursor.advance_behind front text
      rw [tokensBehind, htoList, ih hstop htexts htypes]
      congr 1
      have htype : nameIn names (.integer p.id) = type := htype
      rw [Piece.token, tokenAt, htype, htoList, hstop, ← htoList, String.ofList_toList]

end NumberedLexer

/-! ## The end of a source

A lexer says that it is at its end, and a scanner has no reply left.  A stream does the same for both.
-/

/-- Whether a source is another one that may say at its end that it has ended. -/
def Source.EndsAs (source source' : Source) : Prop :=
  source = source' ∨ source = source' ++ [.done]

def ScanResult.leaving (rest : Source) : ScanResult → ScanResult
  | .found scan ended _ => .found scan ended rest
  | .broken f _ => .broken f rest

theorem scanFrom_append_done (cfg : Config) (newline : Token) (whitespace : List Token) (source : Source) :
    ∃ rest : Source, rest.EndsAs (scanFrom cfg newline whitespace source).rest ∧
      scanFrom cfg newline whitespace (source ++ [.done]) = (scanFrom cfg newline whitespace source).leaving rest := by
  fun_induction scanFrom cfg newline whitespace source with
  | case1 => exact ⟨[], .inl rfl, rfl⟩
  | case2 | case3 | case4 => exact ⟨_, .inr rfl, rfl⟩
  | case5 newline whitespace t rest e hk =>
    refine ⟨_, .inr rfl, ?_⟩
    rw [List.cons_append, scanFrom_unknown _ _ _ hk]
    rfl
  | case6 newline whitespace t rest hc ih =>
    obtain ⟨rest', hrest, heq⟩ := ih
    refine ⟨rest', by rwa [ScanResult.rest_behindBlank], ?_⟩
    simp only [List.cons_append, scanFrom, hc]
    rw [heq]
    cases scanFrom cfg t [] rest <;> rfl
  | case7 newline whitespace t rest hc ih =>
    obtain ⟨rest', hrest, heq⟩ := ih
    refine ⟨rest', hrest, ?_⟩
    simp only [List.cons_append, scanFrom, hc]
    exact heq
  | case8 newline whitespace t rest hc length hm =>
    refine ⟨_, .inr rfl, ?_⟩
    simp only [List.cons_append, scanFrom, hc, hm]
    rfl
  | case9 newline whitespace t rest hc e hm =>
    refine ⟨_, .inr rfl, ?_⟩
    simp only [List.cons_append, scanFrom, hc, hm]
    rfl

namespace Stream

theorem emit_leaving (s : Stream) (rest rest' : Source) (notes : List Note) :
    s.emit rest' notes = { s.emit rest notes with rest := rest' } := by
  unfold emit
  split <;> rfl

theorem settle_leaving (s : Stream) (cfg : Config) (newline : Token) (scan : LineScan Token) (rest rest' : Source) :
    s.settle cfg newline scan rest' = { s.settle cfg newline scan rest with rest := rest' } := by
  unfold settle
  dsimp only
  split
  · rfl
  · rfl
  · exact emit_leaving _ _ _ _

theorem pull_append_done (s : Stream) (cfg : Config) (source : Source) : ∃ rest : Source,
    rest.EndsAs (s.pull cfg source).rest ∧
      s.pull cfg (source ++ [.done]) = { s.pull cfg source with rest } := by
  cases hx : s.exhausted with
  | true =>
    rw [pull_exhausted hx, pull_exhausted hx, rest_close]
    exact ⟨_, .inr rfl, emit_leaving _ _ _ _⟩
  | false =>
    cases source with
    | nil =>
      refine ⟨[], .inl ?_, ?_⟩
      · simp [pull, hx]
      · simp only [List.nil_append, pull, hx, Bool.false_eq_true, if_false]
        exact emit_leaving _ _ _ _
    | cons r rest =>
      cases r with
      | done | gap =>
        refine ⟨rest ++ [.done], .inr ?_, ?_⟩
        · simp [pull, hx]
        · simp only [List.cons_append, pull, hx, Bool.false_eq_true, if_false]
          exact emit_leaving _ _ _ _
      | fault f =>
        refine ⟨rest ++ [.done], .inr ?_, ?_⟩ <;> simp [pull, hx]
      | token t =>
        simp only [List.cons_append, pull, hx, Bool.false_eq_true, if_false]
        cases cfg.classOf t with
        | error e => exact ⟨_, .inr rfl, rfl⟩
        | ok c =>
          cases c with
          | whitespace | other => exact ⟨_, .inr rfl, rfl⟩
          | newline =>
            obtain ⟨rest', hrest, heq⟩ := scanFrom_append_done cfg t [] rest
            simp only [scanLine, heq]
            cases hs : scanFrom cfg t [] rest with
            | broken f left =>
              rw [hs] at hrest
              exact ⟨rest', hrest, rfl⟩
            | found scan ended left =>
              rw [hs] at hrest
              refine ⟨rest', ?_, settle_leaving _ _ _ _ _ _⟩
              dsimp only
              rwa [rest_settle]

theorem next_append_done (s : Stream) (source : Source) : ∃ rest : Source, rest.EndsAs (s.next source).rest ∧
    s.next (source ++ [.done]) = { s.next source with rest } := by
  unfold next
  split
  · exact ⟨_, .inr rfl, rfl⟩
  · split
    · exact ⟨_, .inr rfl, rfl⟩
    · split
      · exact ⟨_, .inr rfl, rfl⟩
      · exact pull_append_done s _ source

/-- **Whether a source says that it is at its end, or has no reply left, is all the same to a stream.** -/
theorem drain_append_done (s : Stream) (source : Source) : ∃ rest : Source,
    s.drain (source ++ [.done]) = { s.drain source with rest } := by
  obtain ⟨rest, hrest, hnext⟩ := next_append_done s source
  by_cases h : ∃ t, (s.next source).reply = .token t
  · obtain ⟨t, ht⟩ := h
    have ht' : (s.next (source ++ [.done])).reply = .token t := by rw [hnext, ht]
    rw [drain_of_token ht, drain_of_token ht', hnext]
    -- the stream has taken the end with its token, or the end is still to come
    rcases hrest with rfl | rfl
    · exact ⟨_, rfl⟩
    · obtain ⟨rest', heq⟩ := drain_append_done (s.next source).stream (s.next source).rest
      exact ⟨rest', by dsimp only; rw [heq]⟩
  · have ht : ∀ t, (s.next source).reply ≠ .token t := fun t ht => h ⟨t, ht⟩
    have ht' : ∀ t, (s.next (source ++ [.done])).reply ≠ .token t := by rwa [hnext]
    rw [drain_of_not_token ht, drain_of_not_token ht', hnext]
    exact ⟨rest, rfl⟩
termination_by (source.length, s.held)
decreasing_by
  rcases next_token ht with hl | ⟨hl, hh⟩
  · exact .left _ _ hl
  · rw [hl]
    exact .right _ hh

theorem configure_words (policy : Policy) (unit : Nat) :
    (unconfigured policy [.name "WS"] unit).configure (.text "INDENT") (.text "DEDENT") (.text "NL") =
      .ok (ofConfig (wordConfig policy unit)) := by
  have hkinds : Kinds.ofData (.text "INDENT") (.text "DEDENT") (.text "NL") = .ok wordKinds := by decide +kernel
  show (do let kinds ← Kinds.ofData _ _ _; pure _) = _
  rw [hkinds]
  rfl

end Stream

/-! ## Two sources of the same tokens -/

/-- The tokens of a variant that keeps blanks lie side by side. -/
theorem tiled_of_scan {v : Variant} (hv : v ≠ .ignore) {text : String} {ts : List Token}
    (h : v.scanner.scan text = Source.ofTokens ts) : Tiled .start ts := by
  obtain ⟨us, failure, hus, hscan⟩ := exists_tiled hv text.toList
  have hts : v.scanner.scanFrom .start text.toList = Source.ofTokensUntil ts none := by
    rw [Source.ofTokensUntil, Option.map_none, Option.toList_none, List.append_nil]
    exact h
  obtain ⟨rfl, -⟩ := Source.ofTokensUntil_inj (hts.symm.trans hscan)
  exact hus

namespace NumberedLexer

/-- **A numbering lexer says where its pieces stand, and the tokens of its records stand there.**  However it cuts a
text, there is one token for each piece, and it starts and stops where the text in front of the piece and the piece
itself do; so it stops where the next one starts.  What the lexer would give behind its end does not matter.  If the
pieces and their names are those of a word scanner that keeps blanks and can read the text, the tokens are the
scanner's, and a stream over them gives what the tokens of the text are. -/
theorem source_reproduces_places (names : Names) (pieces : List Piece) (hids : ∀ p ∈ pieces, p.id ≠ -1)
    (last : Option Record) (hlast : ∀ r ∈ last, r.isEnd = true) (more : List (Option Record)) :
    ∃ ts : List Token,
      sourceOf true names ((recordsBehind [] pieces).map some ++ last :: more) = .ok (Source.ofTokens ts ++ [.done]) ∧
      ts.length = pieces.length ∧
      (∀ before p after, pieces = before ++ p :: after →
        let front := before.flatMap (fun q => q.text.toList)
        ts[before.length]? = some
          { type := nameIn names (.integer p.id)
            value := p.text
            start := (Cursor.behind front).place
            stop := (Cursor.behind (front ++ p.text.toList)).place
            level := none }) ∧
      ∀ (v : Variant) (text : String) (us : List Token), v ≠ .ignore → v.scanner.scan text = Source.ofTokens us →
        pieces.map Piece.text = us.map Token.value →
        pieces.map (fun p => nameIn names (.integer p.id)) = us.map Token.type →
        ts = us ∧ ∀ policy unit, ∃ s : Stream,
          (Stream.unconfigured policy [.name "WS"] unit).configure (.text "INDENT") (.text "DEDENT") (.text "NL") =
            .ok s ∧
          let d := s.drain (Source.ofTokens ts ++ [.done])
          d.tokens = (drainText (wordConfig policy unit) v text).tokens ∧
            d.toExcept = tokenize text v policy unit := by
  refine ⟨tokensBehind names [] pieces, ?_, length_tokensBehind names [] pieces, ?_, ?_⟩
  · rw [sourceOf, if_pos rfl, source_recordsBehind names hlast more hids]
  · rintro before p after rfl
    exact getElem?_tokensBehind names p after before []
  · intro v text us hv hscan htexts htypes
    have hus : tokensBehind names [] pieces = us :=
      tokensBehind_of_tiled (tiled_of_scan hv hscan) rfl htexts htypes
    refine ⟨hus, fun policy unit => ⟨_, Stream.configure_words policy unit, ?_⟩⟩
    obtain ⟨rest, hdrain⟩ := Stream.drain_append_done (.ofConfig (wordConfig policy unit)) (Source.ofTokens us)
    rw [hus, hdrain, ← hscan]
    exact ⟨rfl, rfl⟩

/-- A table of names, and the pieces of a text of two lines. -/
def wordNames : Names :=
  [(1, .name "WORD"), (2, .name "NL"), (3, .name "WS")]

def wordPieces : List Piece :=
  [⟨1, "a"⟩, ⟨2, "\r\n"⟩, ⟨3, "  "⟩, ⟨1, "b"⟩]

def endRecord : Record :=
  ⟨.int (-1), .text "<EOF>", .int 6, .int 5, .int 2, .int 3⟩

theorem source_reproduces_places_words :
    (∀ p ∈ wordPieces, p.id ≠ -1) ∧ (∀ r ∈ some endRecord, r.isEnd = true) ∧
      ∃ ts : List Token,
        sourceOf true wordNames ((recordsBehind [] wordPieces).map some ++ some endRecord :: [none]) =
          .ok (Source.ofTokens ts ++ [.done]) ∧
        ts[3]? = some ⟨.name "WORD", "b", ⟨.int 5, .int 2, .int 3⟩, ⟨.int 6, .int 2, .int 4⟩, none⟩ ∧
        ∃ s : Stream,
          (Stream.unconfigured .before [.name "WS"] 0).configure (.text "INDENT") (.text "DEDENT") (.text "NL") =
            .ok s ∧
          (s.drain (Source.ofTokens ts ++ [.done])).toExcept = tokenize "a\r\n  b" .space .before 0 := by
  have hids : ∀ p ∈ wordPieces, p.id ≠ -1 := by decide
  have hlast : ∀ r ∈ some endRecord, r.isEnd = true := by
    rintro r ⟨⟩
    decide +kernel
  obtain ⟨ts, hsource, -, htokens, hwords⟩ :=
    source_reproduces_places wordNames wordPieces hids (some endRecord) hlast [none]
  have hlastToken := htokens [⟨1, "a"⟩, ⟨2, "\r\n"⟩, ⟨3, "  "⟩] ⟨1, "b"⟩ [] rfl
  have hscan : Variant.space.scanner.scan "a\r\n  b" = Source.ofTokens (tokensBehind wordNames [] wordPieces) := by
    decide +kernel
  obtain ⟨-, hdrain⟩ := hwords .space "a\r\n  b" _ nofun hscan (by decide +kernel) (by decide +kernel)
  obtain ⟨s, hs, -, htokenize⟩ := hdrain .before 0
  exact ⟨hids, hlast, ts, hsource, hlastToken.trans (by decide +kernel), s, hs, htokenize⟩

end NumberedLexer
end Offside
