import Swatch.Proofs.Css.Blocks
import Swatch.Proofs.Css.Lossless

/-!
# Components

Tokens fall into components: a token that opens nothing is one by itself, and a bracket or a
function is one together with everything up to the token that closes it. A reader that only
looks at tokens on top sees the components and nothing inside them. So what it does with
tokens that close every bracket they open can be said, and proved, component by component.
-/

namespace Swatch.Css

/-- The components that tokens fall into. -/
def components (tokens : List Token) : List (List Token) :=
  match tokens with
  | [] => []
  | first :: rest =>
    match first.opens with
    | none => [first] :: components rest
    | some bracket =>
      let cut := cutAt (Token.closes bracket) [] rest
      (first :: cut.1 ++ cut.2.take 1) :: components (cut.2.drop 1)
termination_by tokens.length
decreasing_by
  · simp
  · have := cutAt_length_le (Token.closes bracket) [] rest
    simp only [List.length_drop, List.length_cons]
    omega

/-- Is the component a single token that satisfies the test? -/
def isSingle (test : Token → Bool) : List Token → Bool
  | [token] => test token
  | _ => false

/-- A component that is complete: a token that opens nothing, or a bracket up to its end. -/
inductive Component : List Token → Prop
  | single {token : Token} (neutral : token.opens = none) : Component [token]
  | block {opening closing : Token} {bracket : Bracket} {inside : List Token}
      (opens : opening.opens = some bracket) (enclosed : Enclosed (Token.closes bracket) inside)
      (closes : closing.closes bracket = true) : Component (opening :: (inside ++ [closing]))

theorem flatten_components (tokens : List Token) : (components tokens).flatten = tokens := by
  fun_induction components tokens with
  | case1 => rfl
  | case2 first rest neutral ih => rw [List.flatten_cons, ih, List.singleton_append]
  | case3 first rest bracket opens cut ih =>
    have parts : cut.1 ++ cut.2 = rest := cutAt_append _ _ _
    rw [List.flatten_cons, ih, List.append_assoc, List.take_append_drop, List.cons_append, parts]

/-- When every bracket is closed, every component is complete. -/
theorem component_of_balanced {tokens : List Token} (balanced : tokens.foldl nest [] = []) :
    ∀ part ∈ components tokens, Component part := by
  fun_induction components tokens with
  | case1 =>
    intro part met
    contradiction
  | case2 first rest neutral ih =>
    rw [foldl_nest_cons_of_neutral neutral] at balanced
    intro part met
    rcases List.mem_cons.mp met with rfl | later
    · exact .single neutral
    · exact ih balanced part later
  | case3 first rest bracket opens cut ih =>
    have opened : nest [] first = [] ++ [bracket] := by
      simp [nest, opens]
    rw [List.foldl_cons, opened] at balanced
    rcases cutAt_closes_of_balanced balanced with ⟨closing, after, ends, closed⟩
    have shape : cut.2 = closing :: after := ends
    have inside : Enclosed (Token.closes bracket) cut.1 :=
      ⟨(foldl_nest_of_cut ends).1, cutAt_fst_uncut _ _ _⟩
    rw [shape] at ih ⊢
    intro part met
    rcases List.mem_cons.mp met with rfl | later
    · exact .block opens inside (foldl_nest_of_cut ends).2
    · exact ih closed part later

theorem eq_singleton_of_isSingle {test : Token → Bool} {part : List Token}
    (single : isSingle test part = true) : ∃ token, part = [token] ∧ test token = true := by
  match part, single with
  | [token], single => exact ⟨token, rfl, single⟩

namespace Component

variable {part : List Token} {test : Token → Bool}

theorem balanced (component : Component part) : part.foldl nest [] = [] := by
  cases component with
  | single neutral => exact nest_eq_nil_of_neutral neutral
  | block opens enclosed closes =>
    have passed : Enclosed (fun _ => false) _ := enclosed.block opens closes rfl
    exact passed.balanced

/-- A cut passes over a component that is not itself a token to cut at. -/
theorem uncut (component : Component part) (neutral : ∀ token, test token = true → token.opens = none)
    (other : isSingle test part = false) : (cutAt test [] part).2 = [] := by
  cases component with
  | single _ =>
    apply uncut_of_passes
    intro token met
    rwa [List.mem_singleton.mp met]
  | @block opening closing bracket inside opens enclosed closes =>
    have passes : test opening = false := by
      cases ends : test opening with
      | false => rfl
      | true =>
        rw [neutral opening ends] at opens
        contradiction
    exact (enclosed.block opens closes passes).uncut

theorem opens_of_isGap {token : Token} (gap : token.isGap = true) : token.opens = none :=
  opens_of_idle (by rw [gap, Bool.true_or])

/-- A component that is no gap begins and ends with a token that is none. -/
theorem ends_of_not_gap (component : Component part) (noGap : isSingle Token.isGap part = false) :
    (∃ first rest, part = first :: rest ∧ first.isGap = false) ∧
      ∃ front last, part = front ++ [last] ∧ last.isGap = false := by
  cases component with
  | @single token _ => exact ⟨⟨token, [], rfl, noGap⟩, ⟨[], token, rfl, noGap⟩⟩
  | @block opening closing bracket inside opens enclosed closes =>
    have noFirst : opening.isGap = false := by
      cases gap : opening.isGap with
      | false => rfl
      | true =>
        rw [opens_of_isGap gap] at opens
        contradiction
    have noLast : closing.isGap = false := by
      rw [Token.closes, beq_iff_eq] at closes
      rw [Token.isGap, closes]
      rfl
    exact ⟨⟨opening, _, rfl, noFirst⟩, ⟨opening :: inside, closing, rfl, noLast⟩⟩

end Component

variable {parts : List (List Token)}

theorem balanced_flatten (each : ∀ part ∈ parts, Component part) :
    parts.flatten.foldl nest [] = [] := by
  induction parts with
  | nil => rfl
  | cons part rest ih =>
    rw [List.flatten_cons, List.foldl_append, (each part List.mem_cons_self).balanced]
    exact ih fun other met => each other (List.mem_cons_of_mem _ met)

/-- The pieces between tokens on top are made up of the components between these tokens. -/
theorem map_fst_piecesAt {test : Token → Bool}
    (neutral : ∀ token, test token = true → token.opens = none)
    (each : ∀ part ∈ parts, Component part) (last : Nat) :
    (piecesAt test last [] parts.flatten).map Prod.fst =
      (parts.splitOnP (isSingle test)).map List.flatten := by
  induction parts with
  | nil => rfl
  | cons part rest ih =>
    have here := each part List.mem_cons_self
    have later := ih fun other met => each other (List.mem_cons_of_mem _ met)
    rw [List.flatten_cons, List.splitOnP_cons_eq_if_modifyHead]
    by_cases single : isSingle test part = true
    · rcases eq_singleton_of_isSingle single with ⟨token, rfl, stops⟩
      have met : (([] : List Bracket).isEmpty && test token) = true := stops
      rw [List.singleton_append, piecesAt, if_pos met, if_pos single, List.map_cons, later]
      rfl
    · have heads (pieces : List (List Token × Nat)) :
          (pieces.modifyHead fun piece => (part ++ piece.1, piece.2)).map Prod.fst =
            (pieces.map Prod.fst).modifyHead (part ++ ·) := by
        cases pieces <;> rfl
      rw [piecesAt_append (here.uncut neutral (Bool.eq_false_iff.mpr single)), here.balanced,
        if_neg single, heads, later]
      cases rest.splitOnP (isSingle test) <;> rfl

theorem skipGaps_flatten (each : ∀ part ∈ parts, Component part) :
    skipGaps parts.flatten = (parts.dropWhile (isSingle Token.isGap)).flatten := by
  induction parts with
  | nil => rfl
  | cons part rest ih =>
    have later := ih fun other met => each other (List.mem_cons_of_mem _ met)
    by_cases gap : isSingle Token.isGap part = true
    · rcases eq_singleton_of_isSingle gap with ⟨token, rfl, passes⟩
      rw [List.dropWhile_cons_of_pos gap, ← later]
      exact List.dropWhile_cons_of_pos passes
    · have component := each part List.mem_cons_self
      rcases (component.ends_of_not_gap (Bool.eq_false_iff.mpr gap)).1 with ⟨first, more, rfl, noGap⟩
      rw [List.dropWhile_cons_of_neg gap]
      exact List.dropWhile_cons_of_neg (by rw [noGap]; exact Bool.false_ne_true)

theorem dropEndWhile_flatten (each : ∀ part ∈ parts, Component part) :
    dropEndWhile Token.isGap parts.flatten =
      (dropEndWhile (isSingle Token.isGap) parts).flatten := by
  induction parts using List.reverseRecOn with
  | nil => rfl
  | append_singleton rest part ih =>
    have before := ih fun other met => each other (List.mem_append_left _ met)
    rw [List.flatten_append, List.flatten_singleton]
    by_cases gap : isSingle Token.isGap part = true
    · rcases eq_singleton_of_isSingle gap with ⟨token, rfl, passes⟩
      rw [dropEndWhile_append (by simpa using passes), dropEndWhile_append (by simpa using gap), before]
    · have component := each part (by simp)
      rw [Bool.not_eq_true] at gap
      rcases (component.ends_of_not_gap gap).2 with ⟨front, last, rfl, noGap⟩
      rw [← List.append_assoc, dropEndWhile_concat noGap, dropEndWhile_concat gap,
        List.flatten_append, List.flatten_singleton, List.append_assoc]

/-- The gaps at the end of closed tokens are the gaps at the end of their components. -/
theorem withoutEndGaps_flatten (each : ∀ part ∈ parts, Component part) :
    withoutEndGaps parts.flatten = (dropEndWhile (isSingle Token.isGap) parts).flatten := by
  rw [withoutEndGaps, if_pos (balanced_flatten each), dropEndWhile_flatten each]

end Swatch.Css
