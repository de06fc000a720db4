/-
Model of the adaptation logics of the simulator (`adap/adaptation-logic-rate-based.cpp`,
`adaptation-logic-rate-and-buffer-based.cpp` and `adaptation-logic-buffer-based.cpp`): each call of `GetNextSegment`
chooses a representation and hands out the address of the next segment.

The base class and the player are not part of the repository. What the logics read of them is a parameter: the
available representations in the order of their map, the one that `GetLowestRepresentation` returns and the number of
segments (`Session`), and at every call the last download bit rate and the buffer level (`Report`). The products of
doubles are exact.

- `search_highest`, `search_lowest`: what a loop over the representations ends at.
- `bufferBased_session`: over every sequence of reports the bandwidth falls only while the buffer is low and rises only
  while it is full.
- `rateAndBuffer_mono`: faster downloads and fuller buffers never lower the bandwidth of any segment.
-/
import NdnDash.Core.Double
import NdnDash.Core.Search

namespace NdnDash.Adaptation.Simulator

open NdnDash.Search

/-! ## Model -/

/-- what the logics read of a representation: `GetBandwidth` and the addresses of its segment list -/
structure Representation where
  bandwidth : UInt32
  segmentURLs : List String
deriving DecidableEq

namespace Representation

/-- the bandwidth as the comparisons see it -/
def rate (rep : Representation) : ℚ := rep.bandwidth.toNat

theorem rate_nonneg (rep : Representation) : 0 ≤ rep.rate := Nat.cast_nonneg _

end Representation

structure Session where
  availableRepresentations : List Representation
  lowest : Representation
  totalSegments : ℕ

structure Report where
  lastDownloadBitRate : Double
  bufferLevel : ℚ

structure St where
  currentSegmentNumber : ℕ := 0
  /-- only the logic on the buffer has it -/
  lastUsedRep : Option Representation := none

/-- what a call leaves in its out parameters and returns -/
inductive Answer
  /-- everything is downloaded -/
  | all
  | segment (requested : ℕ) (usedRepresentation : Representation) (url : String)
  /-- the exception of `at`, with the out parameters already set -/
  | outOfRange (requested : ℕ) (usedRepresentation : Representation)
deriving DecidableEq

/-- the loop that replaces what it has by a representation that passes and has a higher bandwidth; the index past the
end stands for none -/
def highest (reps : List Representation) (passes : Representation → Prop) [DecidablePred passes] (highestBitrate : ℚ) :
    Option Representation :=
  reps[(search (fun rep v => passes rep ∧ v < rep.rate) Representation.rate reps 0 (reps.length, highestBitrate)).1]?

/-- the loop that replaces what it has by a representation that passes and has a lower bandwidth -/
def lowest (reps : List Representation) (passes : Representation → Prop) [DecidablePred passes] (highestBitrate : ℚ) :
    Option Representation :=
  reps[(search (fun rep v => passes rep ∧ rep.rate < v) Representation.rate reps 0 (reps.length, highestBitrate)).1]?

/-- how a logic chooses: the last representation it used and what the player reports -/
abbrev Choice := Session → Option Representation → Report → Representation

def rateBased : Choice := fun session _ report =>
  let lastDownloadSpeed := report.lastDownloadBitRate
  (highest session.availableRepresentations (fun rep => (rep.rate : Double) < lastDownloadSpeed) 0).getD session.lowest

/-- the share of the download speed that the buffer level allows -/
def factor (bufferLevel : ℚ) : ℚ :=
  if bufferLevel < 4 then 0.25
  else if 4 ≤ bufferLevel ∧ bufferLevel < 8 then 0.50
  else if 8 ≤ bufferLevel ∧ bufferLevel < 16 then 0.75
  else 1.0

def rateAndBufferBased : Choice := fun session _ report =>
  let speed := report.lastDownloadBitRate * factor report.bufferLevel
  (highest session.availableRepresentations (fun rep => (rep.rate : Double) < speed) 0).getD session.lowest

def bufferBased : Choice := fun session lastUsedRep report =>
  match lastUsedRep with
  | none => session.lowest
  | some last =>
    let speedOfLastRep := last.rate
    let curDownloadSpeed := report.lastDownloadBitRate
    if report.bufferLevel < 8 then
      (highest session.availableRepresentations
        (fun rep => rep.rate < speedOfLastRep ∧ (rep.rate : Double) < curDownloadSpeed) 0).getD last
    else if report.bufferLevel < 14 then last
    else
      (lowest session.availableRepresentations
        (fun rep => speedOfLastRep < rep.rate ∧ (rep.rate : Double) < curDownloadSpeed) 999999999.99).getD last

/-- `GetNextSegment`; the number is raised before `at` looks at it -/
def getNextSegment (choice : Choice) (session : Session) (st : St) (report : Report) : Answer × St :=
  if st.currentSegmentNumber < session.totalSegments then
    let useRep := choice session st.lastUsedRep report
    let answer := match useRep.segmentURLs[st.currentSegmentNumber]? with
      | some url => .segment st.currentSegmentNumber useRep url
      | none => .outOfRange st.currentSegmentNumber useRep
    (answer, ⟨st.currentSegmentNumber + 1, some useRep⟩)
  else (.all, st)

/-- the answers to a sequence of calls -/
def answers (choice : Choice) (session : Session) : St → List Report → List Answer
  | _, [] => []
  | st, report :: reports =>
    let (answer, st) := getNextSegment choice session st report
    answer :: answers choice session st reports

/-! ## What it is for -/

/-- the representations that a sequence of calls uses, one after another -/
def used (choice : Choice) (session : Session) : Option Representation → List Report → List Representation
  | _, [] => []
  | last, report :: reports =>
    choice session last report :: used choice session (some (choice session last report)) reports

/-- the answer about a segment: its address in the representation, where that has one -/
def about (number : ℕ) (rep : Representation) : Answer :=
  match rep.segmentURLs[number]? with
  | some url => .segment number rep url
  | none => .outOfRange number rep

/-- `u` has the highest bandwidth of those that pass and is above the bound, or `u` is none and nothing does -/
inductive Highest (reps : List Representation) (passes : Representation → Prop) (bound : ℚ) :
    Option Representation → Prop
  | nothing : (∀ rep ∈ reps, passes rep → rep.rate ≤ bound) → Highest reps passes bound none
  | found (u : Representation) : u ∈ reps → passes u → bound < u.rate → (∀ rep ∈ reps, passes rep → rep.rate ≤ u.rate) →
      Highest reps passes bound (some u)

/-- a report of a player that is doing no worse -/
structure Report.Le (report report' : Report) : Prop where
  speed : report.lastDownloadBitRate = report'.lastDownloadBitRate ∨
    report.lastDownloadBitRate < report'.lastDownloadBitRate
  level : report.bufferLevel ≤ report'.bufferLevel

/-! ## A loop over the representations -/

variable {session : Session} {passes : Representation → Prop} [DecidablePred passes]

theorem search_highest (reps : List Representation) (bound : ℚ) :
    Highest reps passes bound (highest reps passes bound) := by
  unfold highest
  have haccepts : ∀ (rep : Representation) (v : ℚ), passes rep ∧ v < rep.rate ↔ passes rep ∧ v < rep.rate :=
    fun _ _ => Iff.rfl
  rcases search_greatest haccepts (reps.length, bound) reps with
    ⟨hsearch, hall⟩ | ⟨i, u, hsearch, hget, hpass, hlt, hgreatest⟩
  · rw [hsearch, List.getElem?_eq_none le_rfl]
    exact .nothing hall
  · rw [hsearch, hget]
    exact .found u (List.mem_of_getElem? hget) hpass hlt hgreatest

theorem search_highest_some {reps : List Representation} {bound : ℚ} {u : Representation}
    (h : highest reps passes bound = some u) : u ∈ reps ∧ passes u := by
  have hhighest : Highest reps passes bound (highest reps passes bound) := search_highest reps bound
  rw [h] at hhighest
  cases hhighest with
  | found _ hu hpass => exact ⟨hu, hpass⟩

theorem search_lowest {reps : List Representation} {bound : ℚ} {u : Representation}
    (h : lowest reps passes bound = some u) :
    u ∈ reps ∧ passes u ∧ u.rate < bound ∧ ∀ rep ∈ reps, passes rep → u.rate ≤ rep.rate := by
  have haccepts : ∀ (rep : Representation) (v : ℚ), passes rep ∧ rep.rate < v ↔ passes rep ∧ rep.rate < v :=
    fun _ _ => Iff.rfl
  have hfound := search_found haccepts (reps.length, bound) reps
  rw [lowest] at h
  generalize search (fun rep v => passes rep ∧ rep.rate < v) Representation.rate reps 0 (reps.length, bound) =
    best at h hfound
  rcases hfound with hall | ⟨i, v, hget, hpass, hlt, hleast, _⟩
  · rw [List.getElem?_eq_none le_rfl] at h
    exact absurd h (by simp)
  · have huv : v = u := Option.some.inj (hget.symm.trans h)
    rw [← huv]
    exact ⟨List.mem_of_getElem? hget, hpass, hlt, hleast⟩

/-! ## A session -/

section Sessions

variable {choice : Choice} {last : Option Representation} {reports : List Report}

@[simp] theorem length_used : (used choice session last reports).length = reports.length := by
  induction reports generalizing last with
  | nil => rfl
  | cons report reports ih => rw [used, List.length_cons, List.length_cons, ih]

/-- once everything is downloaded nothing else is answered -/
theorem answers_all {st : St} (last : Option Representation) (hall : session.totalSegments ≤ st.currentSegmentNumber) :
    answers choice session st reports = (used choice session last reports).map fun _ => .all := by
  induction reports generalizing last with
  | nil => rfl
  | cons report reports ih =>
    rw [answers, getNextSegment, if_neg (not_lt.2 hall), used, List.map_cons]
    exact congrArg _ (ih _)

/-- **The answers.** They are about the segments in order, each in the representation chosen at its call, until there
are no more segments. -/
theorem answers_get {n : ℕ} (i : ℕ) :
    (answers choice session ⟨n, last⟩ reports)[i]? = (used choice session last reports)[i]?.map fun rep =>
      if n + i < session.totalSegments then about (n + i) rep else .all := by
  rcases Nat.lt_or_ge n session.totalSegments with hn | hn
  · induction reports generalizing n last i with
    | nil => rfl
    | cons report reports ih =>
      rw [answers, getNextSegment, if_pos hn, used]
      cases i with
      | zero =>
        simp only [List.getElem?_cons_zero, Option.map_some, Nat.add_zero, if_pos hn]
        rfl
      | succ i =>
        simp only [List.getElem?_cons_succ]
        rcases Nat.lt_or_ge (n + 1) session.totalSegments with hnext | hnext
        · rw [ih i hnext, Nat.add_right_comm n 1 i, Nat.add_assoc]
        · have hout : ¬ n + (i + 1) < session.totalSegments := by omega
          rw [answers_all (some (choice session last report)) hnext]
          simp only [hout, if_false, List.getElem?_map]
  · have hout : ¬ n + i < session.totalSegments := by omega
    rw [answers_all last hn]
    simp only [hout, if_false, List.getElem?_map]

theorem about_injective {n : ℕ} {rep rep' : Representation} (h : about n rep = about n rep') : rep = rep' := by
  unfold about at h
  split at h <;> split at h
  all_goals first | exact (Answer.segment.inj h).2.1 | exact (Answer.outOfRange.inj h).2 | exact absurd h (by simp)

/-- the representation that a call used, read off its answer -/
theorem used_of_answers {i : ℕ} {rep : Representation}
    (h : (answers choice session {} reports)[i]? = some (about i rep)) :
    (used choice session none reports)[i]? = some rep := by
  rw [answers_get] at h
  rcases Option.map_eq_some_iff.1 h with ⟨u, hget, hu⟩
  split_ifs at hu
  · rw [Nat.zero_add] at hu
    rw [hget, about_injective hu]
  · unfold about at hu
    split at hu <;> exact absurd hu (by simp)

theorem used_succ {i : ℕ} {rep : Representation} (h : (used choice session last reports)[i]? = some rep) :
    (used choice session last reports)[i + 1]? = reports[i + 1]?.map (choice session (some rep)) := by
  induction reports generalizing last i with
  | nil => exact absurd h (by simp [used])
  | cons report reports ih =>
    rw [used] at h ⊢
    rw [List.getElem?_cons_succ, List.getElem?_cons_succ]
    cases i with
    | zero =>
      rw [List.getElem?_cons_zero] at h
      rw [Option.some.inj h]
      cases reports <;> rfl
    | succ i => exact ih h

/-- **Run rule.** What holds at one call and is kept by every later choice holds at every later call. -/
theorem used_induction {P : ℕ → Representation → Prop} {i : ℕ} {a : Representation}
    (ha : (used choice session last reports)[i]? = some a) (hbase : P i a)
    (hstep : ∀ k b report, i ≤ k → P k b → reports[k + 1]? = some report → P (k + 1) (choice session (some b) report))
    {j : ℕ} (hij : i ≤ j) {b : Representation} (hb : (used choice session last reports)[j]? = some b) : P j b := by
  induction j, hij using Nat.le_induction generalizing b with
  | base => rwa [← Option.some.inj (ha.symm.trans hb)]
  | succ k hik ih =>
    have hk : k < (used choice session last reports).length :=
      Nat.lt_of_succ_lt (List.getElem?_eq_some_iff.1 hb).1
    rw [used_succ (List.getElem?_eq_getElem hk)] at hb
    rcases Option.map_eq_some_iff.1 hb with ⟨report, hreport, rfl⟩
    exact hstep k _ report hik (ih (List.getElem?_eq_getElem hk)) hreport

end Sessions

/-! ## The logic on the buffer -/

section BufferBased

variable {last : Representation} {report : Report}

/-- while the buffer is not low the bandwidth does not fall -/
theorem le_bufferBased (hlevel : 8 ≤ report.bufferLevel) :
    last.rate ≤ (bufferBased session (some last) report).rate := by
  simp only [bufferBased, if_neg (not_lt.2 hlevel)]
  split_ifs
  · exact le_rfl
  · cases h : lowest session.availableRepresentations
        (fun rep => last.rate < rep.rate ∧ (rep.rate : Double) < report.lastDownloadBitRate) 999999999.99 with
    | none => exact le_rfl
    | some u => exact (search_lowest h).2.1.1.le

/-- while the buffer is not full the bandwidth does not rise -/
theorem bufferBased_le (hlevel : report.bufferLevel < 14) :
    (bufferBased session (some last) report).rate ≤ last.rate := by
  simp only [bufferBased, if_pos hlevel]
  split_ifs
  · cases h : highest session.availableRepresentations
        (fun rep => rep.rate < last.rate ∧ (rep.rate : Double) < report.lastDownloadBitRate) 0 with
    | none => exact le_rfl
    | some u => exact (search_highest_some h).2.1.le
  · exact le_rfl

/-- a representation that is changed to is an available one below the download speed -/
theorem bufferBased_change (session : Session) (last : Representation) (report : Report) :
    bufferBased session (some last) report = last ∨
      bufferBased session (some last) report ∈ session.availableRepresentations ∧
        ((bufferBased session (some last) report).rate : Double) < report.lastDownloadBitRate := by
  simp only [bufferBased]
  split_ifs
  · cases h : highest session.availableRepresentations
        (fun rep => rep.rate < last.rate ∧ (rep.rate : Double) < report.lastDownloadBitRate) 0 with
    | none => exact Or.inl rfl
    | some u => exact Or.inr ⟨(search_highest_some h).1, (search_highest_some h).2.2⟩
  · exact Or.inl rfl
  · cases h : lowest session.availableRepresentations
        (fun rep => last.rate < rep.rate ∧ (rep.rate : Double) < report.lastDownloadBitRate) 999999999.99 with
    | none => exact Or.inl rfl
    | some u => exact Or.inr ⟨(search_lowest h).1, (search_lowest h).2.1.2⟩

/-- **A session of the logic on the buffer.** Over every sequence of reports it answers about the segments in order,
each once, until everything is downloaded. From one answer to a later one the bandwidth does not fall unless the buffer
was below 8 in between, does not rise unless it was at least 14, and a representation that is changed to is an available
one below the download speed of its call or of the last change. -/
theorem bufferBased_session (session : Session) (reports : List Report) :
    (∀ k < reports.length, k < session.totalSegments ∧
        (∃ rep, (answers bufferBased session {} reports)[k]? = some (about k rep)) ∨
      session.totalSegments ≤ k ∧ (answers bufferBased session {} reports)[k]? = some .all) ∧
    ∀ i j a b, i ≤ j → (answers bufferBased session {} reports)[i]? = some (about i a) →
      (answers bufferBased session {} reports)[j]? = some (about j b) →
      ((∀ k report, i < k → k ≤ j → reports[k]? = some report → 8 ≤ report.bufferLevel) → a.rate ≤ b.rate) ∧
      ((∀ k report, i < k → k ≤ j → reports[k]? = some report → report.bufferLevel < 14) → b.rate ≤ a.rate) ∧
      (b = a ∨ b ∈ session.availableRepresentations ∧ ∃ k report, i < k ∧ k ≤ j ∧ reports[k]? = some report ∧
        (b.rate : Double) < report.lastDownloadBitRate) := by
  refine ⟨fun k hk => ?_, fun i j a b hij ha hb => ⟨fun hlevel => ?_, fun hlevel => ?_, ?_⟩⟩
  · have hused : k < (used bufferBased session none reports).length := length_used ▸ hk
    rw [answers_get, List.getElem?_eq_getElem hused, Option.map_some, Nat.zero_add]
    rcases Nat.lt_or_ge k session.totalSegments with hn | hn
    · exact Or.inl ⟨hn, _, by rw [if_pos hn]⟩
    · exact Or.inr ⟨hn, by rw [if_neg (not_lt.2 hn)]⟩
  · have hrun := used_induction (P := fun k u => k ≤ j → a.rate ≤ u.rate) (used_of_answers ha) (fun _ => le_rfl)
      (fun k u report hik hu hreport hkj => calc
        a.rate ≤ u.rate := hu (Nat.le_of_succ_le hkj)
        _ ≤ (bufferBased session (some u) report).rate :=
          le_bufferBased (hlevel (k + 1) report (Nat.lt_succ_of_le hik) hkj hreport))
      hij (used_of_answers hb)
    exact hrun le_rfl
  · have hrun := used_induction (P := fun k u => k ≤ j → u.rate ≤ a.rate) (used_of_answers ha) (fun _ => le_rfl)
      (fun k u report hik hu hreport hkj => calc
        (bufferBased session (some u) report).rate ≤ u.rate :=
          bufferBased_le (hlevel (k + 1) report (Nat.lt_succ_of_le hik) hkj hreport)
        _ ≤ a.rate := hu (Nat.le_of_succ_le hkj))
      hij (used_of_answers hb)
    exact hrun le_rfl
  · refine used_induction (P := fun k' u => u = a ∨ u ∈ session.availableRepresentations ∧ ∃ k report, i < k ∧ k ≤ k' ∧
      reports[k]? = some report ∧ (u.rate : Double) < report.lastDownloadBitRate) (used_of_answers ha) (Or.inl rfl)
      ?_ hij (used_of_answers hb)
    intro k u report hik hu hreport
    rcases bufferBased_change session u report with hsame | ⟨havailable, hbelow⟩
    · rw [hsame]
      refine hu.imp_right ?_
      rintro ⟨havailable, k', report', hik', hk', hreport', hbelow⟩
      exact ⟨havailable, k', report', hik', Nat.le_succ_of_le hk', hreport', hbelow⟩
    · exact Or.inr ⟨havailable, k + 1, report, Nat.lt_succ_of_le hik, le_rfl, hreport, hbelow⟩

end BufferBased

/-! ## The logics on the rate -/

section RateBased

theorem factor_pos (level : ℚ) : 0 < factor level := by
  unfold factor
  split_ifs <;> norm_num

theorem factor_le_one (level : ℚ) : factor level ≤ 1 := by
  unfold factor
  split_ifs <;> norm_num

theorem factor_mono {level level' : ℚ} (h : level ≤ level') : factor level ≤ factor level' := by
  unfold factor
  split_ifs <;> first | norm_num; done | (exfalso; grind)

/-- what is below a share of a speed is below a larger share of a larger speed -/
theorem lt_mul_mono {x : ℚ} {speed speed' : Double} {f f' : ℚ} (hx : 0 ≤ x) (hf : 0 < f) (hff : f ≤ f')
    (hspeed : speed = speed' ∨ speed < speed') (h : (x : Double) < speed * (f : Double)) :
    (x : Double) < speed' * (f' : Double) := by
  have hf' : 0 < f' := hf.trans_le hff
  rcases speed with _ | negative | v
  · exact absurd h (by simp)
  · -- the positive infinity is below nothing
    rw [Double.inf_mul negative hf, Double.finite_lt_inf] at h
    subst h
    rcases hspeed with rfl | hlt
    · rw [Double.inf_mul false hf', Double.finite_lt_inf]
    · cases speed' with
      | nan => exact absurd hlt (Double.not_lt_nan _)
      | inf negative => cases negative <;> exact absurd hlt (by decide)
      | finite v => exact absurd hlt (by simp)
  · rw [Double.finite_mul, Double.finite_lt] at h
    have hv : 0 < v := (pos_iff_pos_of_mul_pos (hx.trans_lt h)).2 hf
    rcases hspeed with rfl | hlt
    · rw [Double.finite_mul, Double.finite_lt]
      exact h.trans_le (mul_le_mul_of_nonneg_left hff hv.le)
    · cases speed' with
      | nan => exact absurd hlt (Double.not_lt_nan _)
      | inf negative =>
        rw [Double.inf_mul negative hf', Double.finite_lt_inf]
        exact (Double.finite_lt_inf v negative).1 hlt
      | finite v' =>
        have hvv : v < v' := (Double.finite_lt v v').1 hlt
        rw [Double.finite_mul, Double.finite_lt]
        calc
          x < v * f := h
          _ ≤ v' * f' := mul_le_mul hvv.le hff hf.le (hv.trans hvv).le

/-- more representations that pass never lower the bandwidth of what a loop ends at -/
theorem highest_mono {passes' : Representation → Prop} [DecidablePred passes'] {reps : List Representation}
    {lowestRep : Representation} (hlowest : ∀ rep ∈ reps, lowestRep.rate ≤ rep.rate)
    (hpasses : ∀ rep ∈ reps, passes rep → passes' rep) :
    ((highest reps passes 0).getD lowestRep).rate ≤ ((highest reps passes' 0).getD lowestRep).rate := by
  have hle : Highest reps passes 0 (highest reps passes 0) := search_highest reps 0
  have hle' : Highest reps passes' 0 (highest reps passes' 0) := search_highest reps 0
  generalize highest reps passes 0 = u at hle ⊢
  generalize highest reps passes' 0 = u' at hle' ⊢
  rcases hle with hall | ⟨v, hv, hpass, hpos, _⟩
  · rcases hle' with _ | ⟨v', hv', _, _, _⟩
    · exact le_rfl
    · exact hlowest v' hv'
  · rcases hle' with hall' | ⟨v', _, _, _, hgreatest'⟩
    · exact absurd (hall' v hv (hpasses v hv hpass)) (not_le.2 hpos)
    · exact hgreatest' v hv (hpasses v hv hpass)

/-- one call: the choice at a report that is no worse -/
theorem rateAndBufferBased_mono (hlowest : ∀ rep ∈ session.availableRepresentations, session.lowest.rate ≤ rep.rate)
    {report report' : Report} (h : report.Le report') (last last' : Option Representation) :
    (rateAndBufferBased session last report).rate ≤ (rateAndBufferBased session last' report').rate ∧
      (rateAndBufferBased session last report).rate ≤ (rateBased session last' report').rate := by
  refine ⟨highest_mono hlowest fun rep _ => ?_, highest_mono hlowest fun rep _ hpass => ?_⟩
  · exact lt_mul_mono rep.rate_nonneg (factor_pos _) (factor_mono h.level) h.speed
  · -- the whole speed is its share by one
    have hone := lt_mul_mono rep.rate_nonneg (factor_pos _) (factor_le_one _) h.speed hpass
    rwa [Double.mul_finite_one] at hone

theorem le_at {reports reports' : List Report} (h : List.Forall₂ Report.Le reports reports') {i : ℕ}
    {report report' : Report} (hget : reports[i]? = some report) (hget' : reports'[i]? = some report') :
    report.Le report' := by
  rcases List.getElem?_eq_some_iff.1 hget with ⟨hi, rfl⟩
  rcases List.getElem?_eq_some_iff.1 hget' with ⟨hi', rfl⟩
  exact (List.forall₂_iff_get.1 h).2 i hi hi'

/-- the representation used at a call is what the logic chooses there, whatever was used before -/
theorem used_get_of_free (choice : Choice)
    (hfree : ∀ last last' report, choice session last report = choice session last' report)
    {last : Option Representation} {reports : List Report} {i : ℕ} {rep : Representation}
    (h : (used choice session last reports)[i]? = some rep) :
    ∃ report, reports[i]? = some report ∧ rep = choice session none report := by
  induction reports generalizing last i with
  | nil => exact absurd h (by simp [used])
  | cons report reports ih =>
    rw [used] at h
    cases i with
    | zero => exact ⟨report, rfl, (Option.some.inj h).symm.trans (hfree last none report)⟩
    | succ i => exact ih h

/-- one call: the choice is the highest below the share of the speed, or the lowest one where nothing is below it -/
theorem rateAndBufferBased_highest (last : Option Representation) (report : Report) :
    let a := rateAndBufferBased session last report
    let speed := report.lastDownloadBitRate * factor report.bufferLevel
    (a = session.lowest ∨ a ∈ session.availableRepresentations ∧ (a.rate : Double) < speed) ∧
      ∀ rep ∈ session.availableRepresentations, (rep.rate : Double) < speed → rep.rate ≤ a.rate := by
  intro a speed
  have h : Highest session.availableRepresentations (fun rep => (rep.rate : Double) < speed) 0
      (highest session.availableRepresentations (fun rep => (rep.rate : Double) < speed) 0) := search_highest _ 0
  have ha : a = (highest session.availableRepresentations (fun rep => (rep.rate : Double) < speed) 0).getD
      session.lowest := rfl
  generalize highest session.availableRepresentations (fun rep => (rep.rate : Double) < speed) 0 = u at h ha
  rw [ha]
  rcases h with hall | ⟨v, hv, hpass, _, hgreatest⟩
  · exact ⟨Or.inl rfl, fun rep hrep hbelow => (hall rep hrep hbelow).trans session.lowest.rate_nonneg⟩
  · exact ⟨Or.inr ⟨hv, hpass⟩, hgreatest⟩

/-- **Two sessions of the logics on the rate.** Every segment is asked for at the highest bandwidth below the share of
the download speed that the buffer allows, or in the lowest representation. If a second player reports at every call at
least the speed and the level of the first, then it asks for no segment at a lower bandwidth, neither with the logic on
rate and buffer nor with the one on the rate alone. -/
theorem rateAndBuffer_mono (session : Session)
    (hlowest : ∀ rep ∈ session.availableRepresentations, session.lowest.rate ≤ rep.rate)
    {reports reports' : List Report} (h : List.Forall₂ Report.Le reports reports') {i : ℕ} {a b : Representation}
    (ha : (answers rateAndBufferBased session {} reports)[i]? = some (about i a))
    (hb : (answers rateAndBufferBased session {} reports')[i]? = some (about i b) ∨
      (answers rateBased session {} reports')[i]? = some (about i b)) :
    (∃ report, reports[i]? = some report ∧
      (a = session.lowest ∨ a ∈ session.availableRepresentations ∧
        (a.rate : Double) < report.lastDownloadBitRate * factor report.bufferLevel) ∧
      ∀ rep ∈ session.availableRepresentations,
        (rep.rate : Double) < report.lastDownloadBitRate * factor report.bufferLevel → rep.rate ≤ a.rate) ∧
    a.rate ≤ b.rate := by
  rcases used_get_of_free rateAndBufferBased (fun _ _ _ => rfl) (used_of_answers ha) with ⟨report, hreport, rfl⟩
  refine ⟨⟨report, hreport, rateAndBufferBased_highest none report⟩, ?_⟩
  rcases hb with hb | hb
  · rcases used_get_of_free rateAndBufferBased (fun _ _ _ => rfl) (used_of_answers hb) with ⟨report', hreport', rfl⟩
    exact (rateAndBufferBased_mono hlowest (le_at h hreport hreport') none none).1
  · rcases used_get_of_free rateBased (fun _ _ _ => rfl) (used_of_answers hb) with ⟨report', hreport', rfl⟩
    exact (rateAndBufferBased_mono hlowest (le_at h hreport hreport') none none).2

/-- one segment, on a low buffer and on a full one -/
theorem rateAndBuffer_mono_low_full : Representation.rate ⟨100, ["a"]⟩ ≤ Representation.rate ⟨300, ["b"]⟩ := by
  have hlowest : ∀ rep ∈ [Representation.mk 100 ["a"], ⟨300, ["b"]⟩],
      Representation.rate ⟨100, ["a"]⟩ ≤ rep.rate := by decide +kernel
  have hreports : List.Forall₂ Report.Le [⟨400, 2⟩] [⟨400, 20⟩] := .cons ⟨Or.inl rfl, by norm_num⟩ .nil
  exact (rateAndBuffer_mono ⟨[⟨100, ["a"]⟩, ⟨300, ["b"]⟩], ⟨100, ["a"]⟩, 1⟩ hlowest hreports (i := 0)
    (a := ⟨100, ["a"]⟩) (b := ⟨300, ["b"]⟩) (by decide +kernel) (Or.inl (by decide +kernel))).2

end RateBased

end NdnDash.Adaptation.Simulator
