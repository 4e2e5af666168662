import Swatch.Proofs.Css.Gaps
import Swatch.Proofs.Css.NormalForm

/-!
# Atoms and gaps

Read from left to right, a text is a sequence of atoms with gaps between them. What an
atom is and how far a gap goes is said here by grammars, without any scan: a string goes
on to the first quote that no backslash hides, a comment to the first mark that ends it,
and an opening that is never closed takes the rest of the text.

Cleaning takes exactly these atoms and skips exactly these gaps. An atom does not depend on
the gap behind it: all that it needs to know of the text there is whether there is any, and
whether it begins with a star, which no gap does.
-/

namespace Swatch.Css

/-! ## Atoms -/

/-- What a string holds: each backslash hides the character after it, and no quote is seen. -/
inductive Inside (quote : Char) : Text → Prop
  | nil : Inside quote []
  | hidden (c : Char) {more : Text} (further : Inside quote more) :
      Inside quote ('\\' :: c :: more)
  | seen {c : Char} {more : Text} (noSlash : c ≠ '\\') (noQuote : c ≠ quote)
      (further : Inside quote more) : Inside quote (c :: more)

/-- The first text is an atom in front of the second. -/
inductive AtomAt : Text → Text → Prop
  | string {quote : Char} {inner : Text} (opens : isQuote quote = true)
      (inside : Inside quote inner) (rest : Text) : AtomAt (quote :: (inner ++ [quote])) rest
  /-- A string that is never closed may end with a backslash. -/
  | unclosed {quote : Char} {inner last : Text} (opens : isQuote quote = true)
      (inside : Inside quote inner) (ends : last = [] ∨ last = ['\\']) :
      AtomAt (quote :: (inner ++ last)) []
  | escape (c : Char) (rest : Text) : AtomAt ['\\', c] rest
  | backslash : AtomAt ['\\'] []
  | single {c : Char} {rest : Text} (noQuote : isQuote c = false) (noSlash : c ≠ '\\')
      (seen : isWhite c = false) (noMark : c = '/' → rest.head? ≠ some '*') : AtomAt [c] rest

theorem quotedLength_inside {quote : Char} {inner : Text} (inside : Inside quote inner)
    (rest : Text) : quotedLength quote (inner ++ rest) = inner.length + quotedLength quote rest := by
  induction inside with
  | nil => simp
  | hidden c further ih =>
    rw [List.cons_append, List.cons_append, quotedLength, ih, List.length_cons, List.length_cons]
    omega
  | @seen c more noSlash noQuote further ih =>
    rw [List.cons_append, quotedLength_cons _ _ _ fun _ _ slash _ => noSlash slash,
      if_neg (by simpa using noQuote), ih, List.length_cons]
    omega

theorem quotedLength_quote {quote : Char} (opens : isQuote quote = true) (rest : Text) :
    quotedLength quote (quote :: rest) = 1 := by
  have noSlash : quote ≠ '\\' := ne_of_class opens (by decide)
  rw [quotedLength_cons _ _ _ fun _ _ slash _ => noSlash slash, if_pos (beq_self_eq_true quote)]

/-- Cleaning takes an atom as a whole. -/
theorem AtomAt.taken {atom rest : Text} (stands : AtomAt atom rest) :
    ∃ first tail, atom = first :: tail ∧ gapLength (first :: (tail ++ rest)) = 0 ∧
      atomTailLength first (tail ++ rest) = tail.length := by
  have string {quote : Char} (opens : isQuote quote = true) (rest : Text) :
      gapLength (quote :: rest) = 0 := by
    rw [gapLength_eq_zero_iff]
    rw [isQuote_iff] at opens
    refine ⟨?_, ?_⟩
    · rw [Bool.eq_false_iff, ne_eq, isWhite_iff]
      omega
    · rintro rfl
      contradiction
  cases stands with
  | @string quote inner opens inside =>
    refine ⟨quote, _, rfl, string opens _, ?_⟩
    rw [atomTailLength, if_pos opens, List.append_assoc, quotedLength_inside inside,
      List.singleton_append, quotedLength_quote opens, List.length_append, List.length_singleton]
  | @unclosed quote inner last opens inside ends =>
    refine ⟨quote, _, rfl, string opens _, ?_⟩
    rw [atomTailLength, if_pos opens, List.append_nil, quotedLength_inside inside,
      List.length_append]
    rcases ends with rfl | rfl
    · rfl
    · have other : ¬('\\' == quote) = true := by
        rw [beq_iff_eq]
        rintro rfl
        contradiction
      rw [quotedLength_cons _ _ _ (by simp), if_neg other]
      rfl
  | escape c => exact ⟨'\\', [c], rfl, rfl, by simp [atomTailLength, isQuote]⟩
  | backslash => exact ⟨'\\', [], rfl, rfl, rfl⟩
  | @single c rest noQuote noSlash seen noMark =>
    refine ⟨c, [], rfl, gapLength_eq_zero_iff.mpr ⟨seen, noMark⟩, ?_⟩
    simp [atomTailLength, noQuote, noSlash]

theorem inside_quotedLength (quote : Char) (text : Text) :
    ∃ inner, Inside quote inner ∧
      (text.take (quotedLength quote text) = inner ++ [quote] ∨
        text.drop (quotedLength quote text) = [] ∧ ∃ last, (last = [] ∨ last = ['\\']) ∧
          text.take (quotedLength quote text) = inner ++ last) := by
  fun_induction quotedLength quote text with
  | case1 => exact ⟨[], .nil, .inr ⟨rfl, [], .inl rfl, rfl⟩⟩
  | case2 c rest ih =>
    rcases ih with ⟨inner, inside, closed | ⟨ends, last, spare, whole⟩⟩
    · refine ⟨_, .hidden c inside, .inl ?_⟩
      rw [Nat.add_comm, List.take_succ_cons, List.take_succ_cons, closed]
      rfl
    · refine ⟨_, .hidden c inside, .inr ⟨?_, last, spare, ?_⟩⟩
      · rwa [Nat.add_comm, List.drop_succ_cons, List.drop_succ_cons]
      · rw [Nat.add_comm, List.take_succ_cons, List.take_succ_cons, whole]
        rfl
  | case3 c rest noEscape closes =>
    rw [beq_iff_eq] at closes
    exact ⟨[], .nil, .inl (by rw [closes]; rfl)⟩
  | case4 c rest noEscape goesOn ih =>
    by_cases slash : c = '\\'
    · have alone : rest = [] := by
        cases rest with
        | nil => rfl
        | cons d more => exact (noEscape d more slash rfl).elim
      subst slash alone
      exact ⟨[], .nil, .inr ⟨rfl, ['\\'], .inr rfl, rfl⟩⟩
    · have noQuote : c ≠ quote := by simpa using goesOn
      rcases ih with ⟨inner, inside, closed | ⟨ends, last, spare, whole⟩⟩
      · refine ⟨_, .seen slash noQuote inside, .inl ?_⟩
        rw [Nat.add_comm, List.take_succ_cons, closed]
        rfl
      · refine ⟨_, .seen slash noQuote inside, .inr ⟨?_, last, spare, ?_⟩⟩
        · rwa [Nat.add_comm, List.drop_succ_cons]
        · rw [Nat.add_comm, List.take_succ_cons, whole]
          rfl

/-- A text that begins with no gap begins with an atom. -/
theorem atomAt_of_gapLength {first : Char} {rest : Text} (noGap : gapLength (first :: rest) = 0) :
    AtomAt (first :: rest.take (atomTailLength first rest))
      (rest.drop (atomTailLength first rest)) := by
  rcases gapLength_eq_zero_iff.mp noGap with ⟨seen, noMark⟩
  unfold atomTailLength
  by_cases opens : isQuote first = true
  · rw [if_pos opens]
    rcases inside_quotedLength first rest with ⟨inner, inside, closed | ⟨ends, last, spare, whole⟩⟩
    · rw [closed]
      exact .string opens inside _
    · rw [ends, whole]
      exact .unclosed opens inside spare
  · rw [if_neg opens]
    by_cases slash : first = '\\'
    · subst slash
      cases rest with
      | nil => exact .backslash
      | cons c more =>
        simp only [beq_self_eq_true, ↓reduceIte, List.length_cons, Nat.le_add_left, Nat.min_eq_left,
          List.take_succ_cons, List.take_zero, List.drop_succ_cons, List.drop_zero]
        exact .escape c more
    · rw [if_neg (by simpa using slash), List.take_zero, List.drop_zero]
      exact .single (Bool.eq_false_iff.mpr opens) slash seen noMark

/-- Of the text behind it an atom sees only whether there is any and whether a star begins it. -/
theorem AtomAt.beside {atom rest other : Text} (stands : AtomAt atom rest)
    (ends : rest = [] → other = []) (star : rest.head? ≠ some '*' → other.head? ≠ some '*') :
    AtomAt atom other := by
  cases stands with
  | string opens inside => exact .string opens inside other
  | unclosed opens inside spare =>
    rw [ends rfl]
    exact .unclosed opens inside spare
  | escape c => exact .escape c other
  | backslash =>
    rw [ends rfl]
    exact .backslash
  | single noQuote noSlash seen noMark =>
    exact .single noQuote noSlash seen fun slash => star (noMark slash)

/-! ## Gaps -/

/-- Is there no mark in the text that ends a comment? -/
def Unended (text : Text) : Prop :=
  ¬"*/".toList <:+: text

/-- A run of white space and closed comments. -/
inductive Filler : Text → Prop
  | nil : Filler []
  | white {c : Char} {more : Text} (white : isWhite c = true) (further : Filler more) :
      Filler (c :: more)
  | comment {body more : Text} (first : Unended (body ++ ['*'])) (further : Filler more) :
      Filler ('/' :: '*' :: (body ++ '*' :: '/' :: more))

/-- The first text is a gap in front of the second. -/
inductive GapAt : Text → Text → Prop
  | closed {gap : Text} (some : gap ≠ []) (filler : Filler gap) (rest : Text) : GapAt gap rest
  /-- A comment that is never closed is the last part of a gap. -/
  | unclosed {lead body : Text} (filler : Filler lead) (goesOn : Unended body) :
      GapAt (lead ++ '/' :: '*' :: body) []

theorem unended_nil : Unended [] := by
  simp [Unended]

theorem unended_cons {c : Char} {text : Text} :
    Unended (c :: text) ↔ (c = '*' → text.head? ≠ some '/') ∧ Unended text := by
  have front : "*/".toList <+: c :: text ↔ c = '*' ∧ text.head? = some '/' := by
    change ['*', '/'] <+: c :: text ↔ _
    cases text <;> simp [List.cons_prefix_cons, eq_comm]
  rw [Unended, Unended, List.infix_cons_iff, front, not_or, not_and]

theorem commentTailLength_cons {c : Char} {rest : Text} (goesOn : c = '*' → rest.head? ≠ some '/') :
    commentTailLength (c :: rest) = 1 + commentTailLength rest := by
  rw [commentTailLength]
  rintro more star rfl
  exact goesOn star rfl

theorem commentTailLength_unended {body : Text} (first : Unended (body ++ ['*'])) (rest : Text) :
    commentTailLength (body ++ '*' :: '/' :: rest) = body.length + 2 := by
  induction body with
  | nil => rfl
  | cons c more ih =>
    rw [List.cons_append, unended_cons] at first
    have same : (more ++ '*' :: '/' :: rest).head? = (more ++ ['*']).head? := by
      cases more <;> rfl
    rw [List.cons_append, commentTailLength_cons (same ▸ first.1), ih first.2, List.length_cons]
    omega

theorem commentTailLength_of_unended {body : Text} (goesOn : Unended body) :
    commentTailLength body = body.length := by
  induction body with
  | nil => rfl
  | cons c more ih =>
    rw [unended_cons] at goesOn
    rw [commentTailLength_cons goesOn.1, ih goesOn.2, List.length_cons, Nat.add_comm]

theorem unended_commentTailLength (text : Text) :
    (∃ body, Unended (body ++ ['*']) ∧
        text.take (commentTailLength text) = body ++ ['*', '/']) ∨
      Unended text ∧ commentTailLength text = text.length := by
  fun_induction commentTailLength text with
  | case1 rest => exact .inl ⟨[], unended_cons.mpr ⟨by simp, unended_nil⟩, rfl⟩
  | case2 c rest goesOn ih =>
    have noEnd : c = '*' → rest.head? ≠ some '/' := by
      intro star slash
      rcases List.head?_eq_some_iff.mp slash with ⟨more, found⟩
      exact goesOn more star found
    rcases ih with ⟨body, first, closed⟩ | ⟨unended, all⟩
    · refine .inl ⟨c :: body, ?_, ?_⟩
      · rw [List.cons_append, unended_cons]
        refine ⟨fun star slash => ?_, first⟩
        have begins : (rest.take (commentTailLength rest)).head? = some '/' := by
          rw [closed]
          cases body with
          | nil => contradiction
          | cons d others => exact slash
        rw [List.head?_take] at begins
        split at begins
        · contradiction
        · exact noEnd star begins
      · rw [Nat.add_comm, List.take_succ_cons, closed]
        rfl
    · exact .inr ⟨unended_cons.mpr ⟨noEnd, unended⟩, by rw [all, List.length_cons, Nat.add_comm]⟩
  | case3 => exact .inr ⟨unended_nil, rfl⟩

theorem Filler.skipGap {gap : Text} (filler : Filler gap) (rest : Text) :
    skipGap (gap ++ rest) = Css.skipGap rest := by
  induction filler with
  | nil => rfl
  | white white further ih => rw [List.cons_append, skipGap_of_white white, ih]
  | @comment body more first further ih =>
    have size := commentTailLength_unended first (more ++ rest)
    have parts : '/' :: '*' :: (body ++ '*' :: '/' :: more) ++ rest =
        '/' :: '*' :: (body ++ '*' :: '/' :: (more ++ rest)) := by simp
    rw [parts, skipGap_comment, size, ← List.drop_drop, List.drop_left]
    exact ih

theorem Filler.append {front back : Text} (first : Filler front) (second : Filler back) :
    Filler (front ++ back) := by
  induction first with
  | nil => exact second
  | white white further ih => exact .white white ih
  | @comment body more first further ih =>
    have parts : '/' :: '*' :: (body ++ '*' :: '/' :: more) ++ back =
        '/' :: '*' :: (body ++ '*' :: '/' :: (more ++ back)) := by simp
    rw [parts]
    exact .comment first ih

theorem Filler.gapLength {c : Char} {more : Text} (filler : Filler (c :: more)) (rest : Text) :
    gapLength (c :: (more ++ rest)) ≠ 0 := by
  cases filler with
  | white white further =>
    rw [gapLength_of_white white]
    exact Nat.one_ne_zero
  | comment first further =>
    rw [List.cons_append, gapLength_comment]
    omega

theorem GapAt.ne_nil {gap rest : Text} (stands : GapAt gap rest) : gap ≠ [] := by
  cases stands with
  | closed some filler => exact some
  | unclosed filler goesOn => simp

theorem GapAt.beside {gap rest other : Text} (stands : GapAt gap rest)
    (ends : rest = [] → other = []) : GapAt gap other := by
  cases stands with
  | closed some filler => exact .closed some filler other
  | unclosed filler goesOn =>
    rw [ends rfl]
    exact .unclosed filler goesOn

/-- Cleaning skips a gap as a whole. -/
theorem GapAt.skipped {gap rest : Text} (stands : GapAt gap rest) :
    gapLength (gap ++ rest) ≠ 0 ∧ skipGap (gap ++ rest) = skipGap rest := by
  cases stands with
  | closed some filler =>
    refine ⟨?_, filler.skipGap rest⟩
    cases gap with
    | nil => contradiction
    | cons c more => exact filler.gapLength rest
  | @unclosed lead body filler goesOn =>
    rw [List.append_nil]
    constructor
    · cases lead with
      | nil =>
        rw [List.nil_append, gapLength_comment]
        omega
      | cons c more => exact filler.gapLength _
    · rw [filler.skipGap, skipGap_comment, commentTailLength_of_unended goesOn, List.drop_length]

/-- What can fill a gap can also stand in front of one. -/
theorem Filler.gapAt {front gap rest : Text} (filler : Filler front) (some : front ≠ [])
    (stands : gap = [] ∨ GapAt gap rest) : GapAt (front ++ gap) rest := by
  rcases stands with rfl | stands
  · rw [List.append_nil]
    exact .closed some filler rest
  · cases stands with
    | closed _ more => exact .closed (by simp [some]) (filler.append more) _
    | unclosed lead goesOn =>
      rw [← List.append_assoc]
      exact .unclosed (filler.append lead) goesOn

/-- What cleaning skips is a gap, unless it is nothing. -/
theorem gapAt_skipGap (text : Text) :
    ∃ gap, text = gap ++ skipGap text ∧ (gap = [] ∨ GapAt gap (skipGap text)) := by
  fun_induction skipGap text with
  | case1 => exact ⟨[], rfl, .inl rfl⟩
  | case2 c rest atom => exact ⟨[], rfl, .inl rfl⟩
  | case3 c rest further size ih =>
    rcases ih with ⟨gap, parts, stands⟩
    -- One part of the gap that is closed goes in front of the others.
    have closed {part : Text} (filler : Filler part) (some : part ≠ [])
        (front : c :: rest = part ++ rest.drop further) :
        ∃ gap, c :: rest = gap ++ skipGap (rest.drop further) ∧
          (gap = [] ∨ GapAt gap (skipGap (rest.drop further))) :=
      ⟨part ++ gap, by rw [List.append_assoc, ← parts, front], .inr (filler.gapAt some stands)⟩
    by_cases mark : c = '/' ∧ rest.head? = some '*'
    · rcases mark with ⟨rfl, star⟩
      rcases List.head?_eq_some_iff.mp star with ⟨more, rfl⟩
      have tail : further = commentTailLength more + 1 := by
        rw [gapLength_comment] at size
        omega
      subst tail
      rw [List.drop_succ_cons] at closed stands parts ⊢
      rcases unended_commentTailLength more with ⟨body, first, taken⟩ | ⟨unended, all⟩
      · apply closed (.comment first .nil) (by simp)
        conv => lhs; rw [← List.take_append_drop (commentTailLength more) more, taken]
        simp
      · rw [all, List.drop_length, skipGap]
        exact ⟨_, (List.append_nil _).symm, .inr (.unclosed .nil unended)⟩
    · rw [not_and] at mark
      have white : isWhite c = true := by
        rw [gapLength_of_noMark mark] at size
        by_contra other
        rw [if_neg other] at size
        contradiction
      have single : further = 0 := by
        rw [gapLength_of_white white] at size
        omega
      subst single
      exact closed (.white white .nil) (by simp) rfl

end Swatch.Css
