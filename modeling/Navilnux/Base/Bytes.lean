import Mathlib.Data.Set.Function
import Mathlib.Data.Set.Lattice
import Mathlib.Order.CompletePartialOrder
import Navilnux.Base.Memory

-- Sequences of bytes in the memory.

namespace Memory

variable {m m₁ m₂ : Memory} {a b v x : Word} {c : Byte} {l l' : List Byte} {n k : Nat} {s t : Set Word}

def range (a : Word) (n : Nat) : Set Word :=
  { x | (x - a).toNat < n }

def ranges (rs : List (Word × Nat)) : Set Word :=
  { x | ∃ r ∈ rs, x ∈ range r.1 r.2 }

def stores (m : Memory) (ws : List (Word × Word)) : Memory :=
  ws.foldl (fun m w => m.setWord w.1 w.2) m

def setBytes (m : Memory) (a : Word) : List Byte → Memory
  | []      => m
  | c :: cs => setBytes (m.setByte a c) (a + 1) cs

def Bytes (m : Memory) (a : Word) : List Byte → Prop
  | []     => True
  | c :: l => m a = c ∧ Bytes m (a + 1) l

def Text (m : Memory) (a : Word) : List Byte → Prop
  | []     => m a = 0
  | c :: l => m a = c ∧ c ≠ 0 ∧ Text m (a + 1) l

def text (m : Memory) (a : Word) : Nat → List Byte
  | 0     => []
  | n + 1 => if m a = 0 then [] else m a :: text m (a + 1) n

theorem mem_range : x ∈ range a n ↔ (x - a).toNat < n :=
  .rfl

theorem add_mem_range (hn : k < n) : a + BitVec.ofNat 32 k ∈ range a n := by
  rw [mem_range]
  have h : a + BitVec.ofNat 32 k - a = BitVec.ofNat 32 k := by bv_omega
  rw [h, BitVec.toNat_ofNat]
  exact Nat.lt_of_le_of_lt (Nat.mod_le _ _) hn

theorem self_mem_range (hn : 0 < n) : a ∈ range a n := by
  rw [mem_range, BitVec.sub_self]
  exact hn

theorem range_mono (h : n ≤ k) : range a n ⊆ range a k :=
  fun _ hx => Nat.lt_of_lt_of_le hx h

theorem range_succ : range (a + 1) n ⊆ range a (n + 1) := by
  intro x hx
  rw [mem_range] at *
  bv_omega

theorem range_add (hk : k + n ≤ 2 ^ 32) : range (a + BitVec.ofNat 32 k) n ⊆ range a (k + n) := by
  intro x hx
  rw [mem_range] at *
  bv_omega

theorem range_subset_ranges {rs : List (Word × Nat)} {r : Word × Nat} (hr : r ∈ rs) :
    range r.1 r.2 ⊆ ranges rs :=
  fun _ hx => ⟨r, hr, hx⟩

theorem ranges_disjoint {rs : List (Word × Nat)} (h : ∀ r ∈ rs, Disjoint (range r.1 r.2) s) :
    Disjoint (ranges rs) s :=
  Set.disjoint_left.mpr fun _ ⟨r, hr, hx⟩ => Set.disjoint_left.mp (h r hr) hx

theorem range_disjoint (h : n ≤ (b - a).toNat) (h' : k ≤ (a - b).toNat) :
    Disjoint (range a n) (range b k) := by
  refine Set.disjoint_left.mpr fun x hx hx' => ?_
  rw [mem_range] at *
  bv_omega

theorem lt_of_disjoint (h : Disjoint (range a k) (range b n)) (hk : 0 < k) : n < 2 ^ 32 := by
  by_contra hn
  refine Set.disjoint_left.mp h (self_mem_range hk) (mem_range.mpr ?_)
  have := (a - b).isLt
  omega

theorem add_le_of_disjoint (h : Disjoint (range a k) (range b n)) (hk : 0 < k) (hn : 0 < n) :
    k + n ≤ 2 ^ 32 := by
  have ha : a ∉ range b n := Set.disjoint_left.mp h <| self_mem_range hk
  have hb : b ∉ range a k := Set.disjoint_right.mp h <| self_mem_range hn
  rw [mem_range, Nat.not_lt] at ha hb
  bv_omega

theorem setBytes_append : m.setBytes a (l ++ l') =
    (m.setBytes a l).setBytes (a + BitVec.ofNat 32 l.length) l' := by
  induction l generalizing m a
  case nil => simp [setBytes]
  case cons c l ih =>
    have h : a + 1 + BitVec.ofNat 32 l.length = a + BitVec.ofNat 32 (l.length + 1) := by bv_omega
    rw [List.cons_append, setBytes, ih, setBytes, List.length_cons, h]

theorem setBytes_apply (h : x ∉ range a l.length) : m.setBytes a l x = m x := by
  induction l generalizing m a
  case nil => rfl
  case cons c l ih =>
    have hx : x ≠ a := fun hx => h <| hx ▸ self_mem_range (Nat.succ_pos _)
    rw [setBytes, ih fun hm => h <| range_succ hm, setByte_apply_of_ne hx]

theorem setBytes_eqOn (h : Disjoint s (range a l.length)) : Set.EqOn (m.setBytes a l) m s :=
  fun _ hx => setBytes_apply <| Set.disjoint_left.mp h hx

theorem setWord_eqOn (h : Disjoint s (range a 4)) : Set.EqOn (m.setWord a v) m s := by
  intro x hx
  refine setWord_apply_of_not_lt fun hlt => Set.disjoint_left.mp h hx ?_
  rw [mem_range]
  exact hlt

theorem word_eq (h : Set.EqOn m₁ m₂ (range a 4)) : m₁.word a = m₂.word a :=
  word_congr fun _ hx => h <| mem_range.mpr hx

theorem setWord_setBytes (h : Disjoint (range b 4) (range a l.length)) :
    (m.setBytes a l).setWord b v = (m.setWord b v).setBytes a l := by
  induction l generalizing m a
  case nil => rfl
  case cons c l ih =>
    rw [List.length_cons] at h
    have ha : ¬(a - b < 4) := fun hlt =>
      Set.disjoint_right.mp h (self_mem_range (Nat.succ_pos _)) <| mem_range.mpr hlt
    rw [setBytes, setBytes, ih (h.mono_right range_succ)]
    congr 1
    funext x
    unfold setWord setByte
    by_cases hx : x = a
    case pos => rw [hx, if_neg ha, if_pos rfl, if_pos rfl]
    case neg => simp only [if_neg hx]

theorem Bytes.drop (h : m.Bytes a (l ++ l')) : m.Bytes (a + BitVec.ofNat 32 l.length) l' := by
  induction l generalizing a
  case nil => simpa using h
  case cons c l ih =>
    have he : a + 1 + BitVec.ofNat 32 l.length = a + BitVec.ofNat 32 (l.length + 1) := by bv_omega
    rw [List.length_cons, ← he]
    exact ih h.right

theorem bytes_setBytes (hl : l.length ≤ 2 ^ 32) : (m.setBytes a l).Bytes a l := by
  induction l generalizing m a
  case nil => trivial
  case cons c l ih =>
    rw [List.length_cons] at hl
    refine ⟨?_, ih (Nat.le_of_succ_le hl)⟩
    rw [setBytes, setBytes_apply]
    · exact if_pos rfl
    · rw [mem_range]
      bv_omega

theorem Bytes.congr (h : m₁.Bytes a l) (he : Set.EqOn m₂ m₁ (range a l.length)) : m₂.Bytes a l := by
  induction l generalizing a
  case nil => trivial
  case cons c l ih =>
    have ⟨hc, hb⟩ := h
    exact ⟨(he <| self_mem_range (Nat.succ_pos _)).trans hc, ih hb <| he.mono range_succ⟩

theorem text_length_le : (m.text a n).length ≤ n := by
  induction n generalizing a
  case zero => exact Nat.le_refl 0
  case succ n ih =>
    rw [text]
    split
    case isTrue  => exact Nat.zero_le _
    case isFalse => exact Nat.succ_le_succ ih

theorem bytes_text : m.Bytes a (m.text a n) := by
  induction n generalizing a
  case zero => trivial
  case succ n ih =>
    rw [text]
    split
    case isTrue  => trivial
    case isFalse => exact ⟨rfl, ih⟩

theorem stores_append {ws vs : List (Word × Word)} : m.stores (ws ++ vs) = (m.stores ws).stores vs :=
  List.foldl_append

theorem stores_eqOn {ws : List (Word × Word)} (h : ∀ q ∈ ws, Disjoint s (range q.1 4)) :
    Set.EqOn (m.stores ws) m s := by
  induction ws generalizing m
  case nil => exact fun _ _ => rfl
  case cons q ws ih =>
    have ⟨hq, hws⟩ := List.forall_mem_cons.mp h
    exact (ih hws).trans <| setWord_eqOn hq

theorem stores_setBytes {ws : List (Word × Word)}
    (h : ∀ q ∈ ws, Disjoint (range q.1 4) (range a l.length)) :
    (m.setBytes a l).stores ws = (m.stores ws).setBytes a l := by
  induction ws generalizing m
  case nil => rfl
  case cons q ws ih =>
    have ⟨hq, hws⟩ := List.forall_mem_cons.mp h
    have hw : (m.setBytes a l).setWord q.1 q.2 = (m.setWord q.1 q.2).setBytes a l := setWord_setBytes hq
    rw [stores, List.foldl_cons, hw]
    exact ih hws

namespace Text

theorem congr (h : m₁.Text a l) (he : Set.EqOn m₂ m₁ (range a (l.length + 1))) : m₂.Text a l := by
  induction l generalizing a
  case nil => exact (he <| self_mem_range (Nat.succ_pos _)).trans h
  case cons c l ih =>
    have ⟨hc, hz, ht⟩ := h
    exact ⟨(he <| self_mem_range (Nat.succ_pos _)).trans hc, hz, ih ht <| he.mono range_succ⟩

theorem tail (h : m.Text a (c :: l)) : m.Text (a + 1) l :=
  h.right.right

theorem head (h : m.Text a (c :: l)) : m a = c :=
  h.left

theorem head_ne (h : m.Text a (c :: l)) : c ≠ 0 :=
  h.right.left

theorem drop (h : m.Text a (l ++ l')) : m.Text (a + BitVec.ofNat 32 l.length) l' := by
  induction l generalizing a
  case nil => simpa using h
  case cons c l ih =>
    have he : a + 1 + BitVec.ofNat 32 l.length = a + BitVec.ofNat 32 (l.length + 1) := by bv_omega
    rw [List.length_cons, ← he]
    exact ih h.tail

theorem apply_ne (h : m.Text a l) (hn : n < l.length) : m (a + BitVec.ofNat 32 n) ≠ 0 := by
  obtain ⟨c, l', he⟩ := List.exists_cons_of_ne_nil <| List.drop_eq_nil_iff.not.mpr <| Nat.not_le.mpr hn
  have ht : m.Text a (l.take n ++ l.drop n) := by rwa [List.take_append_drop]
  have ht := ht.drop
  rw [List.length_take_of_le (Nat.le_of_lt hn), he] at ht
  exact ht.head ▸ ht.head_ne

theorem length_lt (h : m.Text a l) : l.length < 2 ^ 32 := by
  by_contra hl
  have hz : m (a + BitVec.ofNat 32 l.length) = 0 := by
    have h : m.Text a (l ++ []) := by rwa [List.append_nil]
    exact h.drop
  have he : BitVec.ofNat 32 l.length = BitVec.ofNat 32 (l.length - 2 ^ 32) := by bv_omega
  exact h.apply_ne (n := l.length - 2 ^ 32) (by omega) (he ▸ hz)

end Text

theorem text_setBytes (h : ∀ c ∈ l, c ≠ 0) (hl : l.length < 2 ^ 32) :
    (m.setBytes a (l ++ [0])).Text a l := by
  induction l generalizing m a
  case nil => exact if_pos rfl
  case cons c l ih =>
    have ⟨hc, h⟩ := List.forall_mem_cons.mp h
    rw [List.length_cons] at hl
    refine ⟨?_, hc, ih h (Nat.lt_of_succ_lt hl)⟩
    rw [List.cons_append, setBytes, setBytes_apply]
    · exact if_pos rfl
    · rw [mem_range, List.length_append, List.length_singleton]
      bv_omega

theorem text_congr (h : Set.EqOn m₂ m₁ (range a (min n ((m₁.text a n).length + 1)))) :
    m₂.text a n = m₁.text a n := by
  induction n generalizing a
  case zero => rfl
  case succ n ih =>
    have ha : m₂ a = m₁ a := h <| self_mem_range (Nat.lt_min.mpr ⟨Nat.succ_pos _, Nat.succ_pos _⟩)
    rw [text, text] at *
    rw [ha]
    split
    case isTrue hz  => rfl
    case isFalse hz =>
      rw [if_neg hz, List.length_cons, Nat.add_min_add_right] at h
      rw [ih <| h.mono range_succ]

structure TextIn (m : Memory) (s : Set Word) (a : Word) (l : List Byte) : Prop where
  text : m.Text a l
  sub  : range a (l.length + 1) ⊆ s

namespace TextIn

theorem tail (h : m.TextIn s a (c :: l)) : m.TextIn s (a + 1) l where
  text := h.text.tail
  sub  := range_succ.trans h.sub

theorem congr (h : m₁.TextIn s a l) (he : Set.EqOn m₂ m₁ s) : m₂.TextIn s a l where
  text := h.text.congr <| he.mono h.sub
  sub  := h.sub

end TextIn

end Memory
