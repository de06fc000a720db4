/-
Model of the bounded segment buffer between the buffering thread and the decoders (`Buffer/MediaObjectBuffer.cpp`).

Every operation holds `monitorMutex` except while it sleeps, and it checks its condition again when it wakes up. So a
step is the part of a call after its last wake-up, and a call that finds its condition false leaves the state as it is:
the same label later on is its next check. Any number of producers and consumers is a list of labels. `none` is
undefined behaviour. The history records what became of each object handed to `PushBack`.

`ClearTail` and `Clear` count the objects in an `int`; `SetEOS` uses `size_t` for the same loop.

- `Sound`: bounded, first in first out, each accepted object queued, delivered or deleted exactly once, each refused
  object none of these.
- `clearTail_spec`: up to 2^31 objects, everything but the oldest is deleted.
- `fifo_iff`: at every step of a run the buffer is sound and `ClearTail` leaves the oldest object only, exactly when the
  counts of `ClearTail` and `Clear` fit their `int`.
- `tail_survives`: with 2^31 + 1 objects queued, `ClearTail` deletes nothing.
-/
import NdnDash.Core.Machine
import NdnDash.Core.Narrowing

namespace NdnDash.MediaObjectBuffer

open NdnDash.Machine
open scoped List

variable {α : Type}

/-! ## Model -/

structure St (α : Type) where
  mediaobjects : List α
  eos : Bool
  /-- objects whose `PushBack` returned true, in that order -/
  accepted : List α
  /-- objects whose `PushBack` returned false -/
  refused : List α
  /-- objects returned by `GetFront`, in that order -/
  delivered : List α
  /-- objects deleted by `Clear` or `ClearTail` -/
  deleted : List α
deriving DecidableEq, Repr

inductive Op (α : Type) where
  | pushBack (media : α)
  | getFront
  | clearTail
  | clear
  | setEOS (value : Bool)
deriving DecidableEq, Repr

def init : St α := ⟨[], false, [], [], [], []⟩

/-- `PushBack`: sleeps while full and not at the end of the stream, refuses while full at the end of the stream -/
def pushBack (maxcapacity : UInt32) (s : St α) (media : α) : St α :=
  if maxcapacity.toNat ≤ s.mediaobjects.length ∧ s.eos = false then s
  else if maxcapacity.toNat ≤ s.mediaobjects.length then { s with refused := s.refused ++ [media] }
  else { s with mediaobjects := s.mediaobjects ++ [media], accepted := s.accepted ++ [media] }

/-- `GetFront`: on an empty queue it sleeps, or returns `NULL` at the end of the stream -/
def getFront (s : St α) : St α :=
  match s.mediaobjects with
  | [] => s
  | object :: rest => { s with mediaobjects := rest, delivered := s.delivered ++ [object] }

/-- the loop of `ClearTail`: the objects deleted and the queue left -/
def deleteLoop : ℕ → List α → Option (List α × List α)
  | 0, queue => some ([], queue)
  | _ + 1, [] => none
  | n + 1, object :: queue => (deleteLoop n queue).map fun r => (object :: r.1, r.2)

/-- `int size = size() - 1`: what is computed in `size_t` is kept modulo 2^32 -/
def tailSize (length : ℕ) : ℤ := toInt (length - 1)

def clearTail (s : St α) : Option (St α) :=
  let size := tailSize s.mediaobjects.length
  if size < 1 then some s
  else
    match s.mediaobjects with
    | [] => none
    | object :: rest => (deleteLoop size.toNat rest).map fun r =>
        { s with mediaobjects := r.2 ++ [object], deleted := s.deleted ++ r.1 }

/-- `Clear`: the loop counter is an `int`, which overflows when there are 2^31 objects or more -/
def clear (s : St α) : Option (St α) :=
  if s.mediaobjects.length < 2 ^ 31 then some { s with mediaobjects := [], deleted := s.deleted ++ s.mediaobjects }
  else none

def step (maxcapacity : UInt32) (o : Option (St α)) (op : Op α) : Option (St α) :=
  o.bind fun s =>
    match op with
    | .pushBack media => some (pushBack maxcapacity s media)
    | .getFront => some (getFront s)
    | .clearTail => clearTail s
    | .clear => clear s
    | .setEOS value => some { s with eos := value }

/-! ## What the buffer is for -/

/-- bounded, first in first out, and every object handed to `PushBack` accounted for -/
structure Sound [DecidableEq α] (maxcapacity : UInt32) (s : St α) : Prop where
  bounded : s.mediaobjects.length ≤ maxcapacity.toNat
  /-- what has come out and what is queued stand in the order in which they went in -/
  inOrder : (s.delivered ++ s.mediaobjects).Sublist s.accepted
  accounted : s.accepted.Perm (s.delivered ++ s.deleted ++ s.mediaobjects)
  /-- if no object was handed in twice, an accepted object is queued, delivered or deleted, and only once -/
  exactlyOnce : (s.accepted ++ s.refused).Nodup → ∀ x ∈ s.accepted,
    s.mediaobjects.count x + s.delivered.count x + s.deleted.count x = 1
  never : (s.accepted ++ s.refused).Nodup → ∀ x ∈ s.refused,
    x ∉ s.mediaobjects ∧ x ∉ s.delivered ∧ x ∉ s.deleted

/-- a step is right: it returns, the buffer is sound after it, and `ClearTail` leaves the oldest object only -/
def Right [DecidableEq α] (maxcapacity : UInt32) (o : Option (St α)) (op : Op α) : Prop :=
  ∃ s s', o = some s ∧ step maxcapacity o op = some s' ∧ Sound maxcapacity s' ∧
    (op = .clearTail → s'.mediaobjects = s.mediaobjects.take 1)

/-- the number of queued objects fits the `int` of `ClearTail` and of `Clear` -/
def CountsFit (o : Option (St α)) (op : Op α) : Prop :=
  (op = .clearTail → ∀ s ∈ o, s.mediaobjects.length ≤ 2 ^ 31) ∧
    (op = .clear → ∀ s ∈ o, s.mediaobjects.length < 2 ^ 31)

/-- the invariant behind `Sound` -/
structure Inv (maxcapacity : UInt32) (s : St α) : Prop where
  bounded : s.mediaobjects.length ≤ maxcapacity.toNat
  inOrder : (s.delivered ++ s.mediaobjects).Sublist s.accepted
  accounted : s.accepted.Perm (s.delivered ++ s.deleted ++ s.mediaobjects)

theorem inv_init (maxcapacity : UInt32) : Inv maxcapacity (init : St α) :=
  ⟨Nat.zero_le _, List.Sublist.refl _, List.Perm.refl _⟩

theorem Inv.sound [DecidableEq α] {maxcapacity : UInt32} {s : St α} (h : Inv maxcapacity s) :
    Sound maxcapacity s where
  bounded := h.bounded
  inOrder := h.inOrder
  accounted := h.accounted
  exactlyOnce hnodup x hx := by
    have hone : s.accepted.count x = 1 := List.count_eq_one_of_mem (List.nodup_append.1 hnodup).1 hx
    have hcount := h.accounted.count_eq x
    rw [List.count_append, List.count_append] at hcount
    omega
  never hnodup x hx := by
    have hnot : x ∉ s.delivered ++ s.deleted ++ s.mediaobjects := fun hmem =>
      (List.nodup_append.1 hnodup).2.2 x (h.accounted.mem_iff.2 hmem) x hx rfl
    rw [List.mem_append, List.mem_append] at hnot
    exact ⟨fun hq => hnot (Or.inr hq), fun hd => hnot (Or.inl (Or.inl hd)), fun hd => hnot (Or.inl (Or.inr hd))⟩

/-! ## One operation at a time -/

variable {maxcapacity : UInt32} {s : St α}

theorem pushBack_inv (h : Inv maxcapacity s) (media : α) : Inv maxcapacity (pushBack maxcapacity s media) := by
  unfold pushBack
  split_ifs with hsleep hfull
  · exact h
  · exact ⟨h.bounded, h.inOrder, h.accounted⟩
  · refine ⟨?_, ?_, ?_⟩
    · rw [List.length_append, List.length_singleton]
      exact not_le.1 hfull
    · rw [← List.append_assoc]
      exact h.inOrder.append (List.Sublist.refl _)
    · rw [← List.append_assoc]
      exact h.accounted.append_right _

theorem getFront_inv (h : Inv maxcapacity s) : Inv maxcapacity (getFront s) := by
  cases hq : s.mediaobjects with
  | nil => simpa only [getFront, hq] using h
  | cons object rest =>
    have hbounded := h.bounded
    have horder := h.inOrder
    have hall := h.accounted
    rw [hq] at hbounded horder hall
    simp only [getFront, hq]
    refine ⟨(Nat.le_succ _).trans hbounded, ?_, hall.trans ?_⟩
    · rw [List.append_assoc]
      exact horder
    · calc s.delivered ++ s.deleted ++ object :: rest
          = s.delivered ++ (s.deleted ++ [object]) ++ rest := by simp
        _ ~ s.delivered ++ ([object] ++ s.deleted) ++ rest := (List.perm_append_comm.append_left _).append_right _
        _ = s.delivered ++ [object] ++ s.deleted ++ rest := by simp

/-- `ClearTail` deletes all that it counts -/
theorem deleteLoop_all (queue : List α) : deleteLoop queue.length queue = some (queue, []) := by
  induction queue with
  | nil => rfl
  | cons object queue ih =>
    rw [List.length_cons, deleteLoop, ih]
    rfl

theorem tailSize_of_le {length : ℕ} (h : length ≤ 2 ^ 31) : tailSize length = (length : ℤ) - 1 :=
  toInt_eq (by omega) (by omega)

theorem tailSize_of_large {length : ℕ} (h : 2 ^ 31 < length) (hcap : length < 2 ^ 32) : tailSize length < 1 := by
  have := toInt_neg (n := (length : ℤ) - 1) (by omega) (by omega)
  rw [tailSize]
  omega

/-- **ClearTail.** With at most 2^31 objects queued, it returns and everything but the oldest is deleted. -/
theorem clearTail_spec (hfit : s.mediaobjects.length ≤ 2 ^ 31) :
    clearTail s = some { s with
      mediaobjects := s.mediaobjects.take 1, deleted := s.deleted ++ s.mediaobjects.drop 1 } := by
  have hsize := tailSize_of_le hfit
  by_cases hone : s.mediaobjects.length ≤ 1
  · rw [clearTail, if_pos (by omega), List.take_of_length_le hone, List.drop_of_length_le hone, List.append_nil]
  · cases hq : s.mediaobjects with
    | nil => simp [hq] at hone
    | cons object rest =>
      have hrest : (tailSize s.mediaobjects.length).toNat = rest.length := by
        rw [hsize, hq, List.length_cons]
        omega
      simp only [clearTail]
      rw [if_neg (by omega), hrest, hq]
      simp only [deleteLoop_all, Option.map_some]
      rfl

/-- beyond 2^31 objects the count is negative and nothing is deleted -/
theorem clearTail_large (hlarge : 2 ^ 31 < s.mediaobjects.length) (hcap : s.mediaobjects.length < 2 ^ 32) :
    clearTail s = some s := by
  rw [clearTail, if_pos (tailSize_of_large hlarge hcap)]

theorem clearTail_inv (h : Inv maxcapacity s) :
    Inv maxcapacity { s with
      mediaobjects := s.mediaobjects.take 1, deleted := s.deleted ++ s.mediaobjects.drop 1 } := by
  refine ⟨?_, ?_, h.accounted.trans ?_⟩
  · exact (List.length_take_le' _ _).trans h.bounded
  · exact ((List.Sublist.refl _).append (List.take_sublist _ _)).trans h.inOrder
  · calc s.delivered ++ s.deleted ++ s.mediaobjects
        = s.delivered ++ s.deleted ++ (s.mediaobjects.take 1 ++ s.mediaobjects.drop 1) := by
          rw [List.take_append_drop]
      _ ~ s.delivered ++ s.deleted ++ (s.mediaobjects.drop 1 ++ s.mediaobjects.take 1) :=
          List.perm_append_comm.append_left _
      _ = s.delivered ++ (s.deleted ++ s.mediaobjects.drop 1) ++ s.mediaobjects.take 1 := by
          simp only [List.append_assoc]

theorem clear_inv (h : Inv maxcapacity s) :
    Inv maxcapacity { s with mediaobjects := [], deleted := s.deleted ++ s.mediaobjects } := by
  refine ⟨Nat.zero_le _, ?_, ?_⟩
  · exact ((List.Sublist.refl _).append (List.nil_sublist _)).trans h.inOrder
  · rw [List.append_nil, ← List.append_assoc]
    exact h.accounted

/-! ## Runs -/

/-- a state with the invariant has been reached -/
def Reached (maxcapacity : UInt32) (o : Option (St α)) : Prop := ∃ s, o = some s ∧ Inv maxcapacity s

/-- the one lemma about a step: if the counts fit, it returns, keeps the invariant and `ClearTail` is right -/
theorem step_spec (h : Inv maxcapacity s) {op : Op α} (hfit : CountsFit (some s) op) :
    ∃ s', step maxcapacity (some s) op = some s' ∧ Inv maxcapacity s' ∧
      (op = .clearTail → s'.mediaobjects = s.mediaobjects.take 1) := by
  cases op with
  | pushBack media => exact ⟨_, rfl, pushBack_inv h media, nofun⟩
  | getFront => exact ⟨_, rfl, getFront_inv h, nofun⟩
  | clearTail =>
    have hlen := hfit.1 rfl s rfl
    exact ⟨_, clearTail_spec hlen, clearTail_inv h, fun _ => rfl⟩
  | clear =>
    have hlen := hfit.2 rfl s rfl
    exact ⟨_, by rw [step, Option.bind_some, clear, if_pos hlen], clear_inv h, nofun⟩
  | setEOS value => exact ⟨_, rfl, ⟨h.bounded, h.inOrder, h.accounted⟩, nofun⟩

theorem step_reached (o : Option (St α)) (op : Op α) (h : Reached maxcapacity o) (hfit : CountsFit o op) :
    Reached maxcapacity (step maxcapacity o op) := by
  obtain ⟨s, rfl, hs⟩ := h
  obtain ⟨s', hstep, hs', -⟩ := step_spec hs hfit
  exact ⟨s', hstep, hs'⟩

/-- a step from a state with the invariant is right exactly when the counts fit -/
theorem right_iff [DecidableEq α] (o : Option (St α)) (op : Op α) (h : Reached maxcapacity o) :
    Right maxcapacity o op ↔ CountsFit o op := by
  obtain ⟨s, rfl, hs⟩ := h
  constructor
  · intro hright
    obtain ⟨t, s', ht, hstep, -, htail⟩ := hright
    cases ht
    refine ⟨fun hop t ht => ?_, fun hop t ht => ?_⟩
    · cases ht
      subst hop
      by_contra hlarge
      have hcap : s.mediaobjects.length < 2 ^ 32 := hs.bounded.trans_lt maxcapacity.toNat_lt
      change clearTail s = some s' at hstep
      rw [clearTail_large (not_le.1 hlarge) hcap, Option.some.injEq] at hstep
      subst hstep
      have hlen := congrArg List.length (htail rfl)
      rw [List.length_take] at hlen
      omega
    · cases ht
      subst hop
      by_contra hlarge
      change clear s = some s' at hstep
      rw [clear, if_neg hlarge] at hstep
      cases hstep
  · intro hfit
    obtain ⟨s', hstep, hs', htail⟩ := step_spec hs hfit
    exact ⟨s, s', rfl, hstep, hs'.sound, htail⟩

/-- **The bounded FIFO.** In every interleaving, for every capacity, every step returns with a sound buffer and every
`ClearTail` leaves the oldest object only, exactly when `ClearTail` never finds more than 2^31 objects and `Clear` never
2^31 or more. -/
theorem fifo_iff [DecidableEq α] (maxcapacity : UInt32) (ops : List (Op α)) :
    Along (step maxcapacity) (Right maxcapacity) (some init) ops ↔
      Along (step maxcapacity) CountsFit (some init) ops :=
  along_congr (step maxcapacity) step_reached right_iff ⟨init, rfl, inv_init maxcapacity⟩ ops

/-- while there is room, what is pushed is queued -/
theorem run_pushes (maxcapacity : UInt32) (medias : List α) (h : medias.length ≤ maxcapacity.toNat) :
    run (step maxcapacity) (some init) (medias.map .pushBack) =
      some { init with mediaobjects := medias, accepted := medias } := by
  induction medias using List.reverseRecOn with
  | nil => rfl
  | append_singleton medias media ih =>
    rw [List.length_append, List.length_singleton] at h
    have hroom : ¬ maxcapacity.toNat ≤ medias.length := by omega
    rw [List.map_append, run_append, ih (by omega)]
    simp [step, pushBack, init, hroom]

/-- with more than 2^31 objects queued, `ClearTail` is not right -/
theorem clearTail_not_right [DecidableEq α] (maxcapacity : UInt32) (medias : List α)
    (hlarge : 2 ^ 31 < medias.length) (hroom : medias.length ≤ maxcapacity.toNat) :
    ¬ Along (step maxcapacity) (Right maxcapacity) (some init) (medias.map .pushBack ++ [.clearTail]) := by
  intro h
  have hlast := ((along_append _ _ _ _ _).1 h).2.1
  rw [run_pushes _ medias hroom] at hlast
  have hs : Inv maxcapacity { (init : St α) with mediaobjects := medias, accepted := medias } :=
    ⟨hroom, List.Sublist.refl _, List.Perm.refl _⟩
  have hfit := ((right_iff _ _ ⟨_, rfl, hs⟩).1 hlast).1 rfl _ rfl
  exact absurd hlarge (not_lt.2 hfit)

/-- a capacity of 2^31 + 1, that many objects, and `ClearTail` -/
theorem tail_survives :
    ¬ Along (step 2147483649) (Right 2147483649) (some init)
      ((List.range 2147483649).map Op.pushBack ++ [.clearTail]) := by
  apply clearTail_not_right
  · rw [List.length_range]
    norm_num
  · rw [List.length_range]
    exact le_of_eq rfl

end NdnDash.MediaObjectBuffer
