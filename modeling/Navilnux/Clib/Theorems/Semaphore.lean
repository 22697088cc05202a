import Navilnux.Clib.Basic
import Navilnux.Message.Theorems.Semaphore

namespace Clib

open Message

variable {k s : Word} {p : NavilMsgMng} {s₀ st : State} {es : List Event}

def syscalls (es : List Event) : List Message.Event :=
  es.filterMap Event.syscall

-- A task is inside of the semaphore `k` from a successful `navilnux_sem_p` until the matching
-- `navilnux_sem_v`.
def permit (k : Word) : Event → Option (Permit Word)
  | .poll b e =>
    if b = .navilnuxSemP k ∧ b.result e.reply = some 0 then some (.take e.task) else none
  | .call e   => Message.permit k e
  | _         => none

def permits (k : Word) (es : List Event) : List (Permit Word) :=
  es.filterMap (permit k)

theorem Blocking.result_semP {r : Reply} : (navilnuxSemP k).result r = some 0 ↔ r.ret = 0 := by
  simp only [result]
  split_ifs <;> simp_all

theorem permit_poll {b : Blocking} {e : Message.Event} (h : e.call = b.call) :
    permit k (.poll b e) = Message.permit k e := by
  cases b
  case navilnuxSemP n =>
    simp only [permit, Message.permit, h, Blocking.call, Blocking.navilnuxSemP.injEq, Call.semP.injEq,
      reduceCtorEq, if_false]
    by_cases hn : n = k
    case pos => simp only [hn, Blocking.result_semP]
    case neg => simp only [hn, false_and]
  all_goals simp [permit, Message.permit, h, Blocking.call]

theorem permits_eq (r : Run Step s₀ es st) : permits k es = Message.permits k (syscalls es) := by
  induction r
  case init => rfl
  case step es _ _ _ _ e ih =>
    simp only [permits, syscalls, Message.permits] at *
    cases e
    case enter | resume => exact ih
    case call           => simp only [List.filterMap_cons, permit, Event.syscall, ih]
    case poll t b _     =>
      rw [List.filterMap_cons, permit_poll rfl, List.filterMap_cons, Event.syscall]
      simp only [List.filterMap_cons, ih]

theorem run_syscalls (r : Run Step s₀ es st) (h : ∀ e ∈ syscalls es, KeepsInit k e) :
    Run (SemStep k) s₀.msgmng (syscalls es) st.msgmng := by
  induction r
  case init => exact .init
  case step es _ _ _ _ e ih =>
    cases e
    case enter | resume => exact ih h
    case call t c _ =>
      have ⟨he, h⟩ := List.forall_mem_cons.mp h
      exact .step (ih h) ⟨.intro t c, he⟩
    case poll t b _ =>
      have ⟨he, h⟩ := List.forall_mem_cons.mp h
      exact .step (ih h) ⟨.intro t b.call, he⟩

structure Conservation (k : Word) (s : Int) (es : List Event) (p : NavilMsgMng) : Prop where
  count  : (p (k + semStart)).flag.toInt =
    s + Permit.given (permits k es) - Permit.taken (permits k es)
  nonneg : 0 ≤ (p (k + semStart)).flag.toInt
  semP   : ∀ t,
    0 < (p (k + semStart)).flag.toInt ∧ ((Call.semP k).exec t p).1.ret = 0 ∨
    ¬0 < (p (k + semStart)).flag.toInt ∧ (Call.semP k).exec t p = ({ ret := -2 }, p)
  inside : Permit.Matched (permits k es) →
    ∀ T : Finset Word, (∀ t ∈ T, 0 < Permit.held t (permits k es)) → T.card ≤ s

theorem conservation {pc : Word → Pc} (hk : k ≤ semEnd - semStart) (hs : 0 ≤ s.toInt)
    (r : Run Step ⟨(msgSemInit k s p).2, pc⟩ es st) (hi : ∀ e ∈ syscalls es, KeepsInit k e)
    (hv : s.toInt + Permit.given (permits k es) < 2 ^ 31) :
    Conservation k s.toInt es st.msgmng := by
  have h₀ : Counts k s.toInt [] (msgSemInit k s p).2 := by
    constructor
    case count  => simp [msgSemInit_flag hk, Message.permits, Permit.given, Permit.taken]
    case nonneg => rwa [msgSemInit_flag hk]
  have h := h₀.run hk (permits_eq r ▸ hv) (run_syscalls r hi)
  obtain ⟨hc, hn⟩ := h
  rw [← permits_eq r] at hc
  exact {
    count  := hc
    nonneg := hn
    semP t := by
      by_cases hp : 0 < (st.msgmng (k + semStart)).flag.toInt
      case pos => exact .inl ⟨hp, by rw [Call.semP_exec_of_pos hk hp]⟩
      case neg => exact .inr ⟨hp, Call.semP_exec_of_not_pos hk hp⟩
    inside m T hT := by
      have := m.card_le hT
      omega
  }

theorem conservation_wait :
    Conservation 5 1
      [.poll (.navilnuxSemP 5) ⟨2, .semP 5, { ret := -2 }⟩, .enter 2 (.navilnuxSemP 5),
        .poll (.navilnuxSemP 5) ⟨1, .semP 5, { ret := 0 }⟩, .enter 1 (.navilnuxSemP 5)]
      ((Call.semP 5).exec 2 ((Call.semP 5).exec 1
        (msgSemInit 5 1 (msgInit fun _ => ⟨0, 0⟩)).2).2).2 := by
  have r : Run Step ⟨(msgSemInit 5 1 (msgInit fun _ => ⟨0, 0⟩)).2, fun _ => .user⟩ _ _ := Run.init
    |>.step (.enter 1 (.navilnuxSemP 5) rfl) |>.step (.poll 1 _ rfl)
    |>.step (.enter 2 (.navilnuxSemP 5) rfl) |>.step (.poll 2 _ rfl)
  refine conservation (k := 5) (s := 1) (by decide) (by decide) r ?_ (by decide)
  exact List.forall_mem_cons.mpr ⟨⟨trivial, nofun⟩, List.forall_mem_singleton.mpr ⟨trivial, nofun⟩⟩

end Clib
