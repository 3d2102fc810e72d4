import SymbolicCalculus.Proofs.Text.Slice
import SymbolicCalculus.Proofs.Token.Joining
import SymbolicCalculus.Proofs.Token.Order

/-!
Texts that more text is put behind. A space in between keeps all tokens apart. Without one, the last
token may go on, and so may a whole number and a point at the end, which were two tokens.
-/

set_option autoImplicit false

namespace SymbolicCalculus

namespace Token

/-! ## Tokens behind a space -/

/-- The token could have been scanned, and is not white space. -/
def Legal (token : Token) : Prop :=
  token.kind.Matches token.lexeme.toList ∧ token.isWhitespace = false

/-- The texts of tokens, with a space in front of each. -/
def spaced : List Token → String
  | [] => ""
  | token :: tokens => " " ++ token.lexeme ++ spaced tokens

theorem content_ofText_append_lexeme {token : Token} (legal : token.Legal) (text : String) :
    (ofText (text ++ " " ++ token.lexeme)).map content = (ofText text ++ [token]).map content := by
  rw [ofText_append_space, ofText_of_matches legal.1 legal.2]
  simp [content]

/-- Tokens that are written behind a text, with spaces, are scanned as they are. -/
theorem content_ofText_append_spaced {tokens : List Token} (legal : ∀ token ∈ tokens, token.Legal)
    (text : String) :
    (ofText (text ++ spaced tokens)).map content = (ofText text ++ tokens).map content := by
  induction tokens generalizing text with
  | nil => simp [spaced]
  | cons token tokens ih =>
    have first := content_ofText_append_lexeme (legal token List.mem_cons_self) text
    have others := ih (fun other member => legal other (List.mem_cons_of_mem token member))
      (text ++ " " ++ token.lexeme)
    have regroup : text ++ spaced (token :: tokens) =
        text ++ " " ++ token.lexeme ++ spaced tokens := by
      simp [spaced, String.append_assoc]
    rw [regroup, others, List.map_append, first, ← List.map_append, List.append_assoc]
    rfl

/-! ## The last token goes on -/

/-- A token of the first kind can be the start of one of the second kind. -/
def Kind.GrowsTo (kind kind' : Kind) : Prop := kind = kind' ∨ kind = .int ∧ kind' = .float

/-- The front of a lexeme is a lexeme, unless it ends in the point of a numeral. -/
theorem Kind.Matches.of_append {kind : Kind} {left right : List Char} (filled : left ≠ [])
    (h : kind.Matches (left ++ right)) :
    (∃ kind' : Kind, kind'.GrowsTo kind ∧ kind'.Matches left) ∨
      ∃ whole, left = whole ++ ['.'] ∧ Kind.int.Matches whole ∧ kind = .float := by
  obtain ⟨c, more, rfl⟩ := List.exists_cons_of_ne_nil filled
  generalize same : c :: more ++ right = text at h
  cases h with
  | whitespace all =>
    rw [← same] at all
    exact .inl ⟨_, .inl rfl, .whitespace fun d member => all d (List.mem_append_left right member)⟩
  | name all =>
    rw [← same] at all
    exact .inl ⟨_, .inl rfl, .name fun d member => all d (List.mem_append_left right member)⟩
  | int all =>
    rw [← same] at all
    exact .inl ⟨_, .inl rfl, .int fun d member => all d (List.mem_append_left right member)⟩
  | @float a d whole fraction digits digits' =>
    -- The left part ends in front of the point, at the point, or behind it.
    rcases List.append_eq_append_iff.mp same with ⟨others, split, _⟩ | ⟨others, split, point⟩
    · rw [split] at digits
      exact .inl ⟨.int, .inr ⟨rfl, rfl⟩,
        .int fun e member => digits e (List.mem_append_left others member)⟩
    · rw [split]
      rcases others with _ | ⟨e, others⟩
      · rw [List.append_nil]
        exact .inl ⟨.int, .inr ⟨rfl, rfl⟩, .int digits⟩
      · obtain ⟨rfl, after⟩ := List.cons.inj point
        rcases others with _ | ⟨e, others⟩
        · exact .inr ⟨a :: whole, rfl, .int digits, rfl⟩
        · obtain ⟨rfl, rfl⟩ := List.cons.inj after
          exact .inl ⟨.float, .inl rfl,
            .float digits fun e member => digits' e (List.mem_append_left right member)⟩
  | add | mul | openParen | closeParen =>
    obtain ⟨rfl, rest⟩ := List.cons.inj same
    obtain ⟨rfl, rfl⟩ := List.append_eq_nil_iff.mp rest
    exact .inl ⟨_, .inl rfl, by constructor⟩

theorem Kind.Matches.point_zero {text : List Char} (h : Kind.int.Matches text) :
    Kind.float.Matches (text ++ ['.', '0']) := by
  cases h with
  | int all => exact .float all (by simp)

/-- The token at a point that belongs to no numeral. -/
def pointAt (position : Nat) : Token := ⟨.symbol, ⟨position, position + 1⟩, "."⟩

theorem scanFrom_point (position : Nat) : scanFrom position [] ['.'] = [pointAt position] := by
  have size : '.'.utf8Size = 1 := rfl
  simp [scanFrom, extent, pointAt, size]

theorem scanFrom_whole_point {whole : List Char} (position : Nat) (h : Kind.int.Matches whole) :
    scanFrom position [] (whole ++ ['.']) =
      [⟨.int, ⟨position, position + utf8Length whole⟩, String.ofList whole⟩,
        pointAt (position + utf8Length whole)] := by
  cases h with
  | @int c more all =>
    have digits : ∀ d ∈ more, d.isDigit = true := fun d member => all d (List.mem_cons_of_mem c member)
    have run : (more ++ ['.']).takeWhile Char.isDigit = more := takeWhile_run digits (by simp)
    have extent : extent c (more ++ ['.']) = (.int, more.length) := by
      rw [extent_of_isDigit (all c List.mem_cons_self), numeralExtent_of_whole, run]
      rw [run, List.drop_left]
      simp
    rw [List.cons_append, scanFrom_cons]
    simp [front, extent, scanFrom_point]

/-- The last two tokens are a whole number and a point behind it. -/
structure EndsInPoint (text : String) (tokens : List Token) (whole : Token) : Prop where
  kind : whole.kind = .int
  scanned : scan text = tokens ++ [whole, pointAt whole.span.stop]

namespace EndsInPoint

variable {text : String} {tokens : List Token} {whole : Token}

theorem follows (h : EndsInPoint text tokens whole) : Kind.int.Matches whole.lexeme.toList := by
  have follows := @matches_of_mem_scan text whole (by simp [h.scanned]) (by simp [h.kind])
  rwa [h.kind] at follows

theorem digits (h : EndsInPoint text tokens whole) :
    ∀ c ∈ whole.lexeme.toList, c.isDigit = true := by
  generalize chars : whole.lexeme.toList = lexeme
  have follows := h.follows
  rw [chars] at follows
  cases follows with
  | int all => exact all

/-- The number ends where the point starts. -/
theorem exists_front (h : EndsInPoint text tokens whole) :
    ∃ front, text = front ++ "." ∧ whole.span.stop = front.utf8ByteSize := by
  have cut : scanFrom 0 [] text.toList = (tokens ++ [whole]) ++ [pointAt whole.span.stop] := by
    simpa [scan] using h.scanned
  obtain ⟨before, behind, split, scanned, scanned'⟩ := exists_cut cut
  have point : behind = ['.'] := by
    rw [← flatMap_lexeme_scanFrom (0 + utf8Length before) behind, scanned']
    simp [pointAt]
  have stop := @stop_of_getLast?_scanFrom 0 before whole (by simp [scanned])
  refine ⟨String.ofList before, String.toList_injective ?_, ?_⟩
  · rw [split, point]
    simp
  · rw [stop, Nat.zero_add, ← utf8Length_toList, String.toList_ofList]

end EndsInPoint

theorem exists_endsInPoint {text front : String} {whole : Token} (ends : text = front ++ ".")
    (member : whole ∈ scan text) (kind : whole.kind = .int)
    (stops : whole.span.stop = front.utf8ByteSize) : ∃ tokens, EndsInPoint text tokens whole := by
  obtain ⟨tokens, more, scanned⟩ := List.append_of_mem member
  have cut : scanFrom 0 [] text.toList = (tokens ++ [whole]) ++ more := by
    simpa [scan] using scanned
  obtain ⟨before, behind, split, scannedFront, scannedBack⟩ := exists_cut cut
  have stop := @stop_of_getLast?_scanFrom 0 before whole (by simp [scannedFront])
  -- There is only one way to cut the text at that place.
  have here : cutAt? whole.span.stop text.toList = some (before, behind) :=
    cutAt?_eq_some.mpr ⟨split, by rw [stop, Nat.zero_add]⟩
  have here' : cutAt? whole.span.stop text.toList = some (front.toList, ['.']) :=
    cutAt?_eq_some.mpr ⟨by simp [ends], by rw [stops, utf8Length_toList]⟩
  obtain ⟨rfl, rfl⟩ := Prod.mk.inj (Option.some.inj (here.symm.trans here'))
  rw [scanFrom_point] at scannedBack
  refine ⟨tokens, kind, ?_⟩
  rw [scanned, ← scannedBack, stop]

/-- The second token has all of the first one in front, and may be longer. -/
def Begins (token longer : Token) : Prop :=
  token.kind.GrowsTo longer.kind ∧ token.lexeme.toList <+: longer.lexeme.toList

theorem Begins.isWhitespace_eq {token longer : Token} (h : token.Begins longer) :
    longer.isWhitespace = token.isWhitespace := by
  unfold isWhitespace
  rcases h.1 with same | ⟨int, float⟩
  · rw [same]
  · rw [int, float]
    rfl

/-- The tokens of a text, as they are when there is more text behind. -/
inductive Prolongs (text longer : String) : Prop where
  | apart {more : List Token} (scanned : scan longer = scan text ++ more)
  | grown {tokens more : List Token} {last next : Token} (scanned : scan text = tokens ++ [last])
      (begins : last.Begins next) (scanned' : scan longer = tokens ++ next :: more)
  | pointed {tokens more : List Token} {whole next : Token} (ends : EndsInPoint text tokens whole)
      (begins : whole.Begins next) (scanned' : scan longer = tokens ++ next :: more)

/-- Behind a text, more text leaves its tokens, or goes on with the last one or the last two. -/
theorem prolongs_append (text suffix : String) : Prolongs text (text ++ suffix) := by
  have whole : scan (text ++ suffix) = scanFrom 0 [] (text.toList ++ suffix.toList) := by
    rw [scan, String.toList_append]
  rcases scanFrom_append 0 text.toList suffix.toList with apart | straddles
  · exact .apart (whole.trans apart)
  · obtain ⟨s⟩ := straddles
    have scanned' := whole.trans s.scan_whole
    have scanned : scan text = _ := s.scan_text
    rcases s.follows.of_append s.left_ne_nil with ⟨kind, grows, follows⟩ | ⟨digits, left, follows, float⟩
    · rw [scanFrom_of_matches _ follows] at scanned
      refine .grown scanned ⟨grows, ?_⟩ scanned'
      simp
    · rw [left, scanFrom_whole_point _ follows] at scanned
      refine .pointed ⟨rfl, scanned⟩ ⟨.inr ⟨rfl, float⟩, ?_⟩ scanned'
      simp [left]

/-- A digit behind the point does not stay apart. It and the point would be tokens of their own, but
the rules make one token of all three. -/
theorem EndsInPoint.exists_straddle {text : String} {tokens : List Token} {whole : Token}
    (h : EndsInPoint text tokens whole) : Nonempty (Straddle 0 text.toList ['0']) := by
  rcases scanFrom_append 0 text.toList ['0'] with apart | straddles
  · have scanned : scanFrom 0 [] text.toList = _ := h.scanned
    rw [scanned, List.append_assoc] at apart
    obtain ⟨before, behind, _, _, three⟩ := exists_cut apart
    have zero (position : Nat) :
        (scanFrom position [] ['0']).flatMap (·.lexeme.toList) = ['0'] :=
      flatMap_lexeme_scanFrom ..
    have chars : behind = whole.lexeme.toList ++ ['.', '0'] := by
      rw [← flatMap_lexeme_scanFrom (0 + utf8Length before) behind, three]
      simp [zero, pointAt]
    rw [chars, scanFrom_of_matches _ h.follows.point_zero] at three
    cases (List.cons.inj three).2
  · exact straddles

/-- With a digit behind it, the point belongs to the number. -/
theorem EndsInPoint.scan_append_zero {text : String} {tokens : List Token} {whole : Token}
    (h : EndsInPoint text tokens whole) :
    ∃ span, scan (text ++ "0") = tokens ++ [⟨.float, span, whole.lexeme ++ ".0"⟩] := by
  obtain ⟨s⟩ := h.exists_straddle
  obtain ⟨right, rest⟩ := s.of_char
  have scanned := h.scanned.symm.trans s.scan_text
  have joined : scan (text ++ "0") = scanFrom 0 [] (text.toList ++ ['0']) := by
    rw [scan, String.toList_append]
    rfl
  have scanned' := joined.trans s.scan_whole
  rcases s.follows.of_append s.left_ne_nil with ⟨kind, _, follows⟩ | ⟨digits, left, follows, float⟩
  · -- The last token of the text is a point, which is no lexeme.
    rw [scanFrom_of_matches _ follows] at scanned
    have last := congrArg List.getLast? scanned
    simp only [List.getLast?_append_of_ne_nil _ (List.cons_ne_nil _ _), List.getLast?_cons_cons,
      List.getLast?_singleton, Option.some.injEq, pointAt, Token.mk.injEq] at last
    rw [← last.1] at follows
    cases follows
  · rw [left, scanFrom_whole_point _ follows] at scanned
    obtain ⟨fronts, last⟩ := List.append_inj' scanned rfl
    obtain ⟨rfl, _⟩ := List.cons.inj last
    rw [fronts, scanned', float, left, right, rest]
    simp [scanFrom]

end Token

end SymbolicCalculus
