import Navilnux.Stdio.Format

-- The meaning of a format depends on what is read only.

namespace Stdio

open Memory

variable {m m' : Memory} {null args : Word} {n : Nat} {c : Byte} {o : Options} {s : Spec}

namespace Options

theorem value_congr (h : Set.EqOn m' m (range args o.size)) : o.value m' args = o.value m args := by
  simp only [size, value] at *
  by_cases hq : o.qualifier = some (ch 'h')
  case pos =>
    rw [if_pos hq] at h
    have h₀ : m' args = m args := h <| self_mem_range (by decide)
    have h₁ : m' (args + 1) = m (args + 1) := h <| add_mem_range (k := 1) (by decide)
    rw [if_pos hq, if_pos hq, h₀, h₁]
  case neg =>
    rw [if_neg hq] at h
    rw [if_neg hq, if_neg hq, word_eq h]

theorem stringOutput_congr (h : ∀ p ∈ (o.stringOutput m args null).reads, Set.EqOn m' m (range p.1 p.2)) :
    o.stringOutput m' args null = o.stringOutput m args null := by
  have hw : m'.word args = m.word args := word_eq <| h _ <| List.mem_cons_self ..
  have ht := text_congr <| h _ <| List.mem_cons_of_mem _ <| List.mem_singleton_self _
  rw [stringOutput, stringOutput, hw, ht]

theorem output_congr (h : ∀ p ∈ (o.output m args null n c).reads, Set.EqOn m' m (range p.1 p.2)) :
    o.output m' args null n c = o.output m args null n c := by
  have hw (h : Set.EqOn m' m (range args 4)) : m'.word args = m.word args := word_eq h
  simp only [output] at *
  cases hk : Conversion.of c
  case char    => rw [hk] at h; simp only [charOutput, hw <| h _ <| List.mem_singleton_self _]
  case string  => rw [hk] at h; exact stringOutput_congr h
  case pointer => rw [hk] at h; simp only [pointerOutput, hw <| h _ <| List.mem_singleton_self _]
  case count   => rw [hk] at h; simp only [countOutput, hw <| h _ <| List.mem_singleton_self _]
  case integer => rw [hk] at h; simp only [integerOutput, value_congr <| h _ <| List.mem_singleton_self _]
  case default => rfl

end Options

theorem Amount.value_congr {x : Amount} (h : Set.EqOn m' m (range args x.size)) :
    x.value m' args = x.value m args := by
  cases x
  case digits => rfl
  case star   => exact congrArg BitVec.toInt <| word_eq h

namespace Spec

theorem options_congr (h : ∀ p ∈ s.amountReads args, Set.EqOn m' m (range p.1 p.2)) :
    s.options m' args = s.options m args := by
  have ⟨hw, hp⟩ := List.forall_mem_cons.mp h
  have hp := hp _ <| List.mem_singleton_self _
  have hw {w : Amount} (he : s.width = some w) : w.value m' args = w.value m args := by
    rw [he] at hw
    exact Amount.value_congr hw
  have hp {p : Amount} (he : s.precision = some (some p)) :
      p.value m' (s.precisionArgs args) = p.value m (s.precisionArgs args) := by
    rw [he] at hp
    exact Amount.value_congr hp
  have hs (he : s.width = some .star) : (m'.word args).toInt = (m.word args).toInt := hw he
  simp only [options]
  congr 1
  · split
    case h_1 he => rw [hs he]
    case h_2    => rfl
  · split
    case h_1 he      => rw [hs he]
    case h_2 w _ he  => rw [hw he]
    case h_3         => rfl
  · split
    case h_1 p he => rw [hp he]
    case h_2      => rfl
    case h_3      => rfl

theorem output_congr (h : ∀ p ∈ (s.output m null n args).reads, Set.EqOn m' m (range p.1 p.2)) :
    s.output m' null n args = s.output m null n args := by
  have ho := options_congr fun p hp => h p <| List.mem_append_left _ hp
  have hc : s.convert m' null n args = s.convert m null n args := by
    have h : ∀ p ∈ (s.convert m null n args).reads, Set.EqOn m' m (range p.1 p.2) :=
      fun p hp => h p <| List.mem_append_right _ hp
    simp only [convert, ho] at *
    split
    case h_1 c hc =>
      rw [hc] at h
      exact Options.output_congr h
    case h_2 => rfl
  rw [output, output, hc, ho]

end Spec

theorem output_congr {ps : List Piece}
    (h : ∀ p ∈ (output m null n args ps).reads, Set.EqOn m' m (range p.1 p.2)) :
    output m' null n args ps = output m null n args ps := by
  induction ps generalizing n args
  case nil => rfl
  case cons p ps ih =>
    have hp : p.output m' null n args = p.output m null n args := by
      cases p
      case char => rfl
      case spec => exact Spec.output_congr fun p hp => h p <| List.mem_append_left _ hp
    rw [output, output, hp, ih fun p hp => h p <| List.mem_append_right _ hp]

end Stdio
