import Navilnux.Heap.System

namespace Heap

open Arena

inductive Chain (m : Memory) (stop : Word) : Word → List Word → Prop
  | stop : Chain m stop stop []
  | next : (8 ≤ (DyMemHeader.size m a).toInt) → (a < a + DyMemHeader.size m a) →
    Chain m stop (a + DyMemHeader.size m a) as → Chain m stop a (a :: as)

structure Integrity (s : System) (headers : List Word) : Prop where
  chain      : Chain s.mem s.memmng.usedEnd s.memmng.heapStart headers
  startLe    : s.memmng.heapStart ≤ s.memmng.usedEnd
  usedEndLe  : s.memmng.usedEnd ≤ endUsrStackAddr
  aligned    : ∀ a ∈ headers, 4 ∣ a.toNat
  inside     : ∀ {p n}, s.owned p = some n →
    s.memmng.heapStart.toNat + 8 ≤ p.toNat ∧ p.toNat + n.toNat ≤ s.memmng.usedEnd.toNat
  disjoint   : ∀ {p q n k}, s.owned p = some n → s.owned q = some k → p ≠ q →
    p.toNat + n.toNat ≤ q.toNat ∨ q.toNat + k.toNat ≤ p.toNat
  noHeader   : ∀ {p n a}, s.owned p = some n → a ∈ headers →
    a.toNat + 8 ≤ p.toNat ∨ p.toNat + n.toNat ≤ a.toNat
  header     : ∀ {p n}, s.owned p = some n → p - DyMemHeader.sizeof ∈ headers
  used       : ∀ a ∈ headers,
    DyMemHeader.used s.mem a = 1 ∧ (s.owned (a + DyMemHeader.sizeof)).isSome ∨
    DyMemHeader.used s.mem a = 0 ∧ s.owned (a + DyMemHeader.sizeof) = none
  terminates : ∀ size ≤ maxSize, ∃ fuel r, memMalloc fuel size s.toState = some r

def headers (a : Word) : Arena Word → List Word
  | []      => []
  | b :: bs => a :: headers (a + BitVec.ofNat 32 b.size) bs

theorem mem_headers_iff {a c : Word} {bs : Arena Word} :
    c ∈ headers a bs ↔ ∃ i b, At bs i b ∧ c = a + BitVec.ofNat 32 i := by
  induction bs generalizing a
  case nil => simp [headers, not_at_nil]
  case cons d bs ih =>
    simp only [headers, List.mem_cons, ih, at_cons_iff]
    constructor
    · rintro (rfl | ⟨i, b, hb, rfl⟩)
      · exact ⟨0, d, .inl ⟨rfl, rfl⟩, by simp⟩
      · exact ⟨d.size + i, b, .inr ⟨i, rfl, hb⟩, by rw [BitVec.ofNat_add, BitVec.add_assoc]⟩
    · rintro ⟨_, b, ⟨rfl, rfl⟩ | ⟨i, rfl, hb⟩, rfl⟩
      · exact .inl <| by simp
      · exact .inr ⟨i, b, hb, by rw [BitVec.ofNat_add, BitVec.add_assoc]⟩

theorem chain_headers {m : Memory} {a : Word} {bs : Arena Word} (h : Row m a bs) :
    Chain m (a + BitVec.ofNat 32 (total bs)) a (headers a bs) := by
  induction bs generalizing a
  case nil => simpa [headers] using Chain.stop
  case cons b bs ih =>
    have hd := h.head.size
    have ⟨hs₁, hs₂⟩ := h.head_size
    have ih := ih h.tail
    rw [Row.tail_end] at ih
    refine .next ?_ ?_ (hd.symm ▸ ih)
    · rw [hd, toInt_ofNat hs₂]
      exact Int.ofNat_le.mpr hs₁
    · have := h.bound
      rw [hd]
      simp only [total_cons] at *
      bv_omega

namespace Represents

variable {s : System} {bs : Arena Word} {p n : Word}

theorem block (h : Represents s bs) (hp : s.owned p = some n) :
    ∃ i b, At bs i b ∧ b.owner = some n ∧ p - DyMemHeader.sizeof = s.memmng.pos i ∧
      p.toNat = s.memmng.heapStart.toNat + i + 8 ∧ n.toNat + 8 ≤ b.size := by
  have ⟨i, b, hb, he, ho⟩ := h.owned.mp hp
  have hf := h.fit hb ho
  have hi := h.pos_toNat <| Nat.le_of_add_right_le hb.le
  have := hb.le
  have := h.bound
  simp only [endUsrStackAddr] at *
  exact ⟨i, b, hb, ho, he ▸ BitVec.add_sub_cancel _ _, by bv_omega, hf⟩

theorem owned_at {i : Nat} {b : Block Word} (h : Represents s bs) (hb : At bs i b) :
    s.owned (s.memmng.pos i + 8) = b.owner := by
  ext n
  rw [h.owned]
  constructor
  · intro ⟨j, c, hc, he, ho⟩
    have hi := Nat.le_of_add_right_le hb.le
    have hj := Nat.le_of_add_right_le hc.le
    have hij : i = j := h.pos_inj hi hj <| BitVec.add_left_inj _ |>.mp he
    exact hb.unique h.positive (hij ▸ hc) ▸ ho
  · exact fun ho => ⟨i, b, hb, rfl, ho⟩

theorem integrity_of_aligned (h : Represents s bs) (ha : ∀ b ∈ bs, 4 ∣ b.size) :
    Integrity s (headers s.memmng.heapStart bs) := by
  have hu : s.memmng.usedEnd.toNat = s.memmng.heapStart.toNat + total bs :=
    h.usedEnd ▸ h.pos_toNat (Nat.le_refl _)
  have hb : s.memmng.heapStart.toNat + total bs ≤ endUsrStackAddr.toNat := h.bound
  have hl : endUsrStackAddr.toNat < 2 ^ 32 := by decide
  constructor
  case chain     => exact h.usedEnd ▸ chain_headers h.row
  case startLe   => show s.memmng.heapStart.toNat ≤ s.memmng.usedEnd.toNat; omega
  case usedEndLe => show s.memmng.usedEnd.toNat ≤ _; omega
  case aligned =>
    intro a hm
    have ⟨i, b, hb, he⟩ := mem_headers_iff.mp hm
    have hp := h.pos_toNat <| Nat.le_of_add_right_le hb.le
    have hd : 4 ∣ s.memmng.heapStart.toNat := h.heapStart ▸ (by decide : 4 ∣ startDyMemAddr.toNat)
    exact he ▸ hp ▸ Nat.dvd_add hd (Aligned.of_size ha hb)
  case inside =>
    intro p n hp
    have ⟨i, b, hb, _, _, _, _⟩ := h.block hp
    have := hb.le
    omega
  case disjoint =>
    intro p q n k hp hq hne
    have ⟨i, b, hb, _, he, _, _⟩ := h.block hp
    have ⟨j, c, hc, _, hf, _, _⟩ := h.block hq
    rcases hb.disjoint hc with ⟨rfl, -⟩ | hd | hd
    · have := BitVec.sub_left_inj _ |>.mp <| he.trans hf.symm
      exact absurd this hne
    · exact .inl <| by omega
    · exact .inr <| by omega
  case noHeader =>
    intro p n a hp hm
    have ⟨i, b, hb, _, _, _, _⟩ := h.block hp
    have ⟨j, c, hc, he⟩ := mem_headers_iff.mp hm
    have := h.pos_toNat <| Nat.le_of_add_right_le hc.le
    have he : a.toNat = (s.memmng.pos j).toNat := congrArg _ he
    have := h.size c hc.mem
    rcases hb.disjoint hc with ⟨rfl, -⟩ | hd | hd
    · exact .inl <| by omega
    · exact .inr <| by omega
    · exact .inl <| by omega
  case header =>
    intro p n hp
    have ⟨i, b, hb, _, he, _⟩ := h.block hp
    exact mem_headers_iff.mpr ⟨i, b, hb, he⟩
  case used =>
    intro a hm
    have ⟨i, b, hb, he⟩ := mem_headers_iff.mp hm
    have hd : Header s.mem a b := he ▸ h.header hb
    have ho : s.owned (a + DyMemHeader.sizeof) = b.owner := he ▸ h.owned_at hb
    rw [hd.used, ho]
    cases b.owner
    case none => exact .inr ⟨rfl, rfl⟩
    case some => exact .inl ⟨rfl, rfl⟩
  case terminates => exact fun size _ => h.terminates size

end Represents

def Event.WordSized : Event → Prop
  | malloc size _ => 4 ∣ size.toNat
  | free _ _      => True
  | write _ _     => True

instance : DecidablePred Event.WordSized
  | .malloc _ _            => inferInstanceAs <| Decidable (_ ∣ _)
  | .free _ _ | .write _ _ => inferInstanceAs <| Decidable True

end Heap
