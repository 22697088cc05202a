import Navilnux.Stdio.Convert
import Navilnux.Stdio.Reads

namespace Stdio

open Memory

variable {m : Memory} {I : Set Word} {null buf fmt args : Word} {fuel n : Nat} {l : List Byte}
variable {o o₁ o₂ : Output} {w : Writer} {s : State}

-- An output at `a` does not overwrite what `vsprintf` reads, nor what it stores.
structure Output.Fits (o : Output) (I : Set Word) (a : Word) : Prop where
  reads  : ∀ p ∈ o.reads, range p.1 p.2 ⊆ I
  text   : Disjoint I (range a o.text.length)
  stores : ∀ q ∈ o.stores, Disjoint I (range q.1 4) ∧ Disjoint (range q.1 4) (range a o.text.length)
  bound  : o.Bounded

namespace Output.Fits

theorem separate (h : o.Fits I w.str) : o.Separate w.str :=
  fun p hp => h.text.mono_left <| h.reads p hp

theorem eqOn (h : o.Fits I w.str) : Set.EqOn (o.state w fmt).mem w.mem I :=
  (setBytes_eqOn h.text).trans <| stores_eqOn fun q hq => h.stores q hq |>.left

theorem left (h : (o₁.append o₂).Fits I w.str) : o₁.Fits I w.str := by
  have hle : o₁.text.length ≤ (o₁.append o₂).text.length := by simp [append]
  constructor
  case reads  => exact fun p hp => h.reads p <| List.mem_append_left _ hp
  case text   => exact h.text.mono_right <| range_mono hle
  case stores =>
    intro q hq
    obtain ⟨hI, ht⟩ := h.stores q <| List.mem_append_left _ hq
    exact ⟨hI, ht.mono_right <| range_mono hle⟩
  case bound  => exact fun i hi => h.bound i <| List.mem_append_left _ hi

theorem right (h : (o₁.append o₂).Fits I w.str) (hlt : (o₁.append o₂).text.length < 2 ^ 32) :
    o₂.Fits I (o₁.state w fmt).str := by
  have hs : range (w.str + BitVec.ofNat 32 o₁.text.length) o₂.text.length ⊆
      range w.str (o₁.append o₂).text.length := by
    rw [append, List.length_append] at *
    exact range_add (Nat.le_of_lt hlt)
  constructor
  case reads  => exact fun p hp => h.reads p <| List.mem_append_right _ hp
  case text   => exact h.text.mono_right hs
  case stores =>
    intro q hq
    obtain ⟨hI, ht⟩ := h.stores q <| List.mem_append_right _ hq
    exact ⟨hI, ht.mono_right hs⟩
  case bound  => exact fun i hi => h.bound i <| List.mem_append_right _ hi

theorem state_state {fmt' : Word} (h : (o₁.append o₂).Fits I w.str) :
    o₂.state (o₁.state w fmt).toWriter fmt' = (o₁.append o₂).state w fmt' := by
  have hle : o₁.text.length ≤ (o₁.append o₂).text.length := by simp [append]
  have hm : ((w.mem.stores o₁.stores).setBytes w.str o₁.text).stores o₂.stores =
      ((w.mem.stores o₁.stores).stores o₂.stores).setBytes w.str o₁.text := by
    refine stores_setBytes fun q hq => ?_
    obtain ⟨_, ht⟩ := h.stores q <| List.mem_append_right _ hq
    exact ht.mono_right <| range_mono hle
  simp only [state, append, hm, stores_append, setBytes_append, List.length_append, BitVec.ofNat_add,
    BitVec.add_assoc]

end Output.Fits

theorem output_state {ps : List Piece} {a : Word} (fmt : Word)
    (h : (o₁.append (output w.mem null n a ps)).Fits I w.str) :
    output (o₁.state w fmt).mem null n a ps = output w.mem null n a ps :=
  output_congr fun p hp => h.left.eqOn.mono <| h.reads p <| List.mem_append_right _ hp

theorem state_str (h : w.str - buf = BitVec.ofNat 32 n) :
    (o.state w fmt).str - buf = BitVec.ofNat 32 (n + o.text.length) := by
  have hs : w.str + BitVec.ofNat 32 o.text.length - buf = w.str - buf + BitVec.ofNat 32 o.text.length := by
    bv_omega
  rw [Output.state, hs, h, BitVec.ofNat_add]

theorem loop_eq (h : s.mem.TextIn I s.fmt l) (hf : l.length < fuel) (hn : s.str - buf = BitVec.ofNat 32 n)
    (hs : (output s.mem null n s.args (pieces l)).Fits I s.str) : ∃ fmt,
    loop null buf fuel s = some ((output s.mem null n s.args (pieces l)).state s.toWriter fmt) := by
  obtain ⟨fuel, rfl⟩ : ∃ k, fuel = k + 1 := ⟨fuel - 1, by omega⟩
  induction l using pieces.induct generalizing s fuel n
  case case1 =>
    have hz : s.mem s.fmt = 0 := h.text
    have hstr : s.str + BitVec.ofNat 32 0 = s.str := BitVec.add_zero _
    refine ⟨s.fmt, ?_⟩
    rw [loop, hz, pieces, output, Output.state, List.length_nil, hstr]
    rfl
  case case2 l ih =>
    have hp : ch '%' ≠ 0 := by decide
    have hf := Nat.lt_of_succ_lt_succ hf
    have hlt := lt_of_disjoint (hs.text.mono_left h.sub) (Nat.succ_pos _)
    obtain ⟨fuel, rfl⟩ : ∃ k, fuel = k + 1 := ⟨fuel - 1, by omega⟩
    have hlen := Nat.lt_of_le_of_lt Spec.split_length hf
    rw [pieces, if_pos rfl, output] at *
    obtain ⟨fmt, hd, ht⟩ := directive_eq h.tail hf hn hs.left.bound hs.left.separate
    have ho := output_state fmt hs
    obtain ⟨fmt', he⟩ := ih (ht.congr hs.left.eqOn) (state_str hn) (ho ▸ hs.right hlt) _ hlen
    refine ⟨fmt', ?_⟩
    rw [loop, h.text.head, if_neg hp, if_neg (not_not.mpr rfl)]
    refine bind_of_some hd <| he.trans ?_
    rw [← hs.state_state, ← ho]
    rfl
  case case3 c l hc ih =>
    have hf := Nat.lt_of_succ_lt_succ hf
    have hlt := lt_of_disjoint (hs.text.mono_left h.sub) (Nat.succ_pos _)
    obtain ⟨fuel, rfl⟩ : ∃ k, fuel = k + 1 := ⟨fuel - 1, by omega⟩
    rw [pieces, if_neg hc, output] at *
    have ho := output_state (s.fmt + 1) hs
    obtain ⟨fmt', he⟩ := ih (h.tail.congr hs.left.eqOn) (state_str hn) (ho ▸ hs.right hlt) _ hf
    refine ⟨fmt', ?_⟩
    rw [loop, h.text.head, if_neg h.text.head_ne, if_pos hc]
    refine he.trans ?_
    rw [← hs.state_state, ← ho]
    rfl

def meaning (m : Memory) (null args : Word) (l : List Byte) : Output :=
  output m null 0 args (pieces l)

-- The buffer of `n` bytes, what is read, and what is stored for `%n` are at different places.
structure Output.Apart (o : Output) (rs : List (Word × Nat)) (buf : Word) (n : Nat) : Prop where
  text   : ∀ r ∈ rs, Disjoint (range r.1 r.2) (range buf n)
  stores : ∀ q ∈ o.stores, Disjoint (range q.1 4) (range buf n) ∧
    ∀ r ∈ rs, Disjoint (range r.1 r.2) (range q.1 4)

theorem Output.Apart.fits {rs : List (Word × Nat)} (h : o.Apart rs buf n) (hn : o.text.length ≤ n)
    (hr : ∀ p ∈ o.reads, p ∈ rs) (hb : o.Bounded) : o.Fits (ranges rs) buf where
  reads p hp := range_subset_ranges (hr p hp)
  text       := ranges_disjoint fun r hr => h.text r hr |>.mono_right <| range_mono hn
  stores q hq :=
    have ⟨ht, hr⟩ := h.stores q hq
    ⟨ranges_disjoint hr, ht.mono_right <| range_mono hn⟩
  bound      := hb

theorem vsprintf_of_fits (h : m.TextIn I fmt l) (hf : l.length < fuel) (ho : meaning m null args l = o)
    (hs : o.Fits I buf) : vsprintf null fuel m buf fmt args =
      some ((m.stores o.stores).setBytes buf (o.text ++ [0]), BitVec.ofNat 32 o.text.length) := by
  have hn : buf - buf = BitVec.ofNat 32 0 := BitVec.sub_self buf
  have hstr : buf + BitVec.ofNat 32 o.text.length - buf = BitVec.ofNat 32 o.text.length := by bv_omega
  subst ho
  have ⟨fmt', he⟩ := @loop_eq I null buf fuel 0 l ⟨⟨m, buf⟩, fmt, args⟩ h hf hn hs
  refine bind_of_some he ?_
  rw [setBytes_append, ← meaning, Output.state, hstr]
  rfl

theorem vsprintf_eq (h : m.Text fmt l) (hf : l.length < fuel) (hb : (meaning m null args l).Bounded)
    (hs : (meaning m null args l).Apart ((fmt, l.length + 1) :: (meaning m null args l).reads) buf
      ((meaning m null args l).text.length + 1)) :
    vsprintf null fuel m buf fmt args = some (
      (m.stores (meaning m null args l).stores).setBytes buf ((meaning m null args l).text ++ [0]),
      BitVec.ofNat 32 (meaning m null args l).text.length) := by
  have hI : m.TextIn (ranges ((fmt, l.length + 1) :: (meaning m null args l).reads)) fmt l :=
    ⟨h, range_subset_ranges (r := (fmt, l.length + 1)) (List.mem_cons_self ..)⟩
  have hfits := hs.fits (Nat.le_add_right _ 1) (fun p hp => List.mem_cons_of_mem _ hp) hb
  exact vsprintf_of_fits hI hf rfl hfits

def swiFormat : List Byte :=
  ['S', 'y', 's', 't', 'e', 'm', ' ', 'c', 'a', 'l', 'l', ' ', '%', 'd', '\n'].map ch

def swiMemory : Memory :=
  setBytes (setWord (fun _ => 0) 0x2000 5) 0x1000 (swiFormat ++ [0])

theorem swiMemory_text : swiMemory.Text 0x1000 swiFormat :=
  text_setBytes (by decide) (by decide)

theorem swiMemory_reads :
    (meaning swiMemory 0 0x2000 swiFormat).reads = [(0x2000, 0), (0x2000, 0), (0x2000, 4)] := by
  decide +kernel

theorem swiMemory_stores : (meaning swiMemory 0 0x2000 swiFormat).stores = [] := by
  decide +kernel

theorem swiMemory_bounded : (meaning swiMemory 0 0x2000 swiFormat).Bounded := by
  have ha : (meaning swiMemory 0 0x2000 swiFormat).amounts = [-1, -1] := by decide +kernel
  intro i hi
  rw [ha] at hi
  have : i = -1 := by simpa using hi
  omega

theorem swiMemory_output : (meaning swiMemory 0 0x2000 swiFormat).text =
    ['S', 'y', 's', 't', 'e', 'm', ' ', 'c', 'a', 'l', 'l', ' ', '5', '\n'].map ch := by
  decide +kernel

theorem swiMemory_apart : (meaning swiMemory 0 0x2000 swiFormat).Apart
    ((0x1000, swiFormat.length + 1) :: (meaning swiMemory 0 0x2000 swiFormat).reads) 0x3000
    ((meaning swiMemory 0 0x2000 swiFormat).text.length + 1) := by
  have hd {a : Word} {k : Nat} (hk : k ≤ (0x3000 - a).toNat) (ha : 15 ≤ (a - 0x3000).toNat) :
      Disjoint (range a k) (range 0x3000 15) := range_disjoint hk ha
  constructor
  case stores => rw [swiMemory_stores]; exact nofun
  case text   =>
    rw [swiMemory_reads, swiMemory_output]
    simp only [List.forall_mem_cons]
    exact ⟨hd (by decide) (by decide), hd (by decide) (by decide), hd (by decide) (by decide),
      hd (by decide) (by decide), nofun⟩

end Stdio
