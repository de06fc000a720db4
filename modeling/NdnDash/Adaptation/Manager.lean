/-
Model of `MultimediaManager::OnSegmentDownloaded` (`MultimediaManager.cpp`) with the measurement that comes before it
(`DASHReceiver.cpp`, `DoBuffering`): every downloaded video segment is measured, its trace is handed to the logic, and
the logic chooses the next representation.

- `getRepresentation_spec`: one choice of any of the four logics.
- `step_spec`: one download of positive duration; `run_spec`: any number of them.
- `bitRate_ne_zero_iff`: when a measured rate is 0.
- `predicted_iff`: the prediction is a mean of the rates in the trace exactly when none of them is 0.
- `prediction_iff`: over every run, it is so after every download exactly when no download is measured with a rate of 0.
-/
import NdnDash.Adaptation.Game
import NdnDash.Adaptation.QoeFair
import NdnDash.Adaptation.RateBase
import NdnDash.Adaptation.RateBufferBase

namespace NdnDash.Adaptation

open NdnDash.Player

/-! ## Model -/

/-- `videoLogic` -/
inductive VideoLogic
  | qoeFair (l : QoeFair)
  | rateBase (l : Logic)
  | rateBufferBase (l : RateBufferBase)
  | game (l : Game)
deriving DecidableEq

namespace VideoLogic

/-- `InitVideoRendering`; the last index of `RateBufferBaseAdaptation` has no initial value -/
def create (adaptation last_index : ℤ) : VideoLogic :=
  if adaptation = 0 then .qoeFair QoeFair.construct
  else if adaptation = 1 then .rateBase Logic.construct
  else if adaptation = 2 then .rateBufferBase { Logic.construct with last_index := last_index }
  else .game Game.construct

/-- the members that the manager writes -/
def logic : VideoLogic → Logic
  | .qoeFair l => l.toLogic
  | .rateBase l => l
  | .rateBufferBase l => l.toLogic
  | .game l => l.toLogic

/-- `UpdateThroughputTraceAdaptationParameter` -/
def update (v : VideoLogic) (percent : UInt32) (t : ThroughputTrace) : VideoLogic :=
  match v with
  | .qoeFair l => .qoeFair { l with toLogic := l.toLogic.update percent t }
  | .rateBase l => .rateBase (l.update percent t)
  | .rateBufferBase l => .rateBufferBase { l with toLogic := l.toLogic.update percent t }
  | .game l => .game { l with toLogic := l.toLogic.update percent t }

def getRepresentation (m : Libm) (bandwidths : List UInt32) : VideoLogic → Option (ℕ × VideoLogic)
  | .qoeFair l => (l.getRepresentation m bandwidths).map fun r => (r.1, .qoeFair r.2)
  | .rateBase l => (RateBase.getRepresentation bandwidths l).map fun r => (r.1, .rateBase r.2)
  | .rateBufferBase l => (l.getRepresentation bandwidths).map fun r => (r.1, .rateBufferBase r.2)
  | .game l => (l.getRepresentation m bandwidths).map fun r => (r.1, .game r.2)

end VideoLogic

/-- a downloaded segment, with the fill level at its end -/
structure Download where
  beginTime : ℤ
  endTime : ℤ
  size : UInt32
  videoBufferFillPercent : UInt32
deriving DecidableEq

def Download.measured (d : Download) : Option ThroughputTrace := updateThroughput d.beginTime d.endTime d.size

/-- `UpdateThroughput` and `OnSegmentDownloaded` -/
def onSegmentDownloaded (m : Libm) (bandwidths : List UInt32) (v : VideoLogic) (d : Download) : Option VideoLogic :=
  d.measured.bind fun currentThroughput =>
    ((v.update d.videoBufferFillPercent currentThroughput).getRepresentation m bandwidths).map Prod.snd

/-- the logic after some downloads -/
def downloaded (m : Libm) (bandwidths : List UInt32) (v : VideoLogic) (ds : List Download) : Option VideoLogic :=
  ds.foldlM (onSegmentDownloaded m bandwidths) v

/-! ## One choice -/

variable {m : Libm} {bandwidths : List UInt32} {v : VideoLogic} {d : Download}

/-- the logics whose `GetRepresentation` computes a prediction -/
def VideoLogic.predicts : VideoLogic → Bool
  | .rateBufferBase _ => false
  | _ => true

/-- a last index that does not throw -/
inductive Ready (bandwidths : List UInt32) : VideoLogic → Prop
  | qoeFair {l : QoeFair} {last : UInt32} : at? bandwidths l.last_index = some last → Ready bandwidths (.qoeFair l)
  | rateBase {l : Logic} : Ready bandwidths (.rateBase l)
  | rateBufferBase {l : RateBufferBase} {last : UInt32} :
      at? bandwidths l.last_index = some last → Ready bandwidths (.rateBufferBase l)
  | game {l : Game} {last : UInt32} : at? bandwidths l.last_index = some last → Ready bandwidths (.game l)

theorem ready_create (hne : bandwidths ≠ []) {adaptation last_index : ℤ}
    (hindex : adaptation = 2 → ∃ last, at? bandwidths last_index = some last) :
    Ready bandwidths (VideoLogic.create adaptation last_index) := by
  obtain ⟨first, rest, rfl⟩ := List.exists_cons_of_ne_nil hne
  have hfirst : at? (first :: rest) 0 = some first := rfl
  unfold VideoLogic.create
  split_ifs with _ _ h
  · exact .qoeFair hfirst
  · exact .rateBase
  · obtain ⟨last, hlast⟩ := hindex h
    exact .rateBufferBase hlast
  · exact .game hfirst

/-- a trace that is not empty has a prediction -/
theorem exists_predictOf {ts : List ThroughputTrace} (hne : ts ≠ []) : ∃ p, Logic.predictOf ts = some p := by
  by_cases h : ∀ t ∈ ts, t.bitRate ≠ 0
  · obtain ⟨p, hp, -⟩ := Logic.predict_bounds hne h
    exact ⟨p, hp⟩
  · have hnone : Logic.reciprocalSum ts = none := Logic.reciprocalSum_eq_none_iff.2 (by simpa using h)
    exact ⟨0, by rw [Logic.predictOf, hnone]⟩

/-- **One choice.** It returns, and of the common members only the prediction changes, if there is one. -/
theorem getRepresentation_spec (m : Libm) (hne : bandwidths ≠ []) (hv : Ready bandwidths v)
    (htrace : v.logic.throughputTrace ≠ []) :
    ∃ r, v.getRepresentation m bandwidths = some r ∧ Ready bandwidths r.2 ∧ r.2.predicts = v.predicts ∧
      r.2.logic = if v.predicts then v.logic.predict else v.logic := by
  cases hv with
  | @qoeFair l last hlast =>
    obtain ⟨index, hlt, hget⟩ := QoeFair.getRepresentation_eq m hne hlast
    exact ⟨_, by rw [VideoLogic.getRepresentation, hget]; rfl, .qoeFair (at?_of_lt hlt), rfl, rfl⟩
  | @rateBase l =>
    have hget := RateBase.getRepresentation_eq hne l
    exact ⟨_, by rw [VideoLogic.getRepresentation, hget]; rfl, .rateBase, rfl, rfl⟩
  | @rateBufferBase l last hlast =>
    obtain ⟨b, hb, -, -⟩ := RateBufferBase.chosenIndex_spec hne l.currentSegmentBufferfillPercent last
      (RateBufferBase.curDownloadSpeed l.throughputTrace)
    have hget := RateBufferBase.getRepresentation_eq hlast hb
    exact ⟨_, by rw [VideoLogic.getRepresentation, hget]; rfl, .rateBufferBase ((at?_natCast _ _).trans hb), rfl, rfl⟩
  | @game l last hlast =>
    obtain ⟨p, hp⟩ := exists_predictOf htrace
    have hnewest : l.throughputTrace.getLast? = some (l.throughputTrace.getLast htrace) :=
      List.getLast?_eq_some_getLast htrace
    obtain ⟨index, hlt, hget⟩ := Game.getRepresentation_eq m hne hlast hnewest hp
    refine ⟨_, by rw [VideoLogic.getRepresentation, hget]; rfl, .game (at?_of_lt hlt), rfl, ?_⟩
    exact Game.measure_toLogic m l _ p

theorem ready_update (hv : Ready bandwidths v) (percent : UInt32) (t : ThroughputTrace) :
    Ready bandwidths (v.update percent t) ∧ (v.update percent t).predicts = v.predicts ∧
      (v.update percent t).logic = v.logic.update percent t := by
  cases hv with
  | qoeFair hlast => exact ⟨.qoeFair hlast, rfl, rfl⟩
  | rateBase => exact ⟨.rateBase, rfl, rfl⟩
  | rateBufferBase hlast => exact ⟨.rateBufferBase hlast, rfl, rfl⟩
  | game hlast => exact ⟨.game hlast, rfl, rfl⟩

/-! ## Runs of downloads -/

/-- the state after some downloads, with what was measured -/
structure After (bandwidths : List UInt32) (predicts : Bool) (ds : List Download) (v : VideoLogic)
    (ts : List ThroughputTrace) : Prop where
  ready : Ready bandwidths v
  kind : v.predicts = predicts
  measured : ds.map Download.measured = ts.map some
  holds : v.logic.Holds ts
  predicted : predicts = true → ds ≠ [] → v.logic.predictBandwidth = Logic.predictOf v.logic.throughputTrace

section Runs

variable {ds : List Download} {ts : List ThroughputTrace} {predicts : Bool} {adaptation last_index : ℤ}

theorem rtake_concat_ne_nil (ts : List ThroughputTrace) (t : ThroughputTrace) : (ts ++ [t]).rtake 5 ≠ [] := by
  rw [List.rtake_concat_succ]
  exact List.append_ne_nil_of_right_ne_nil _ (List.cons_ne_nil t [])

/-- **One download.** If it took some time, it is measured, and a logic that predicts does so from the new trace. -/
theorem step_spec (m : Libm) (hne : bandwidths ≠ []) (h : After bandwidths predicts ds v ts)
    (hd : d.beginTime < d.endTime) :
    ∃ v' t, onSegmentDownloaded m bandwidths v d = some v' ∧
      After bandwidths predicts (ds ++ [d]) v' (ts ++ [t]) := by
  obtain ⟨t, ht⟩ : ∃ t, d.measured = some t := ⟨_, updateThroughput_eq hd⟩
  obtain ⟨hupdate, hkind, hlogic⟩ := ready_update h.ready d.videoBufferFillPercent t
  have hholds := h.holds.update d.videoBufferFillPercent t
  rw [← hlogic] at hholds
  have htrace : (v.update d.videoBufferFillPercent t).logic.throughputTrace ≠ [] := by
    rw [hholds.trace]
    exact rtake_concat_ne_nil ts t
  obtain ⟨r, hr, hready, hkind', hlogic'⟩ := getRepresentation_spec m hne hupdate htrace
  rw [hkind, h.kind] at hkind' hlogic'
  refine ⟨r.2, t, ?_, hready, hkind', ?_, ?_, ?_⟩
  · rw [onSegmentDownloaded, ht, Option.bind_some, hr, Option.map_some]
  · rw [List.map_append, List.map_append, h.measured, List.map_singleton, List.map_singleton, ht]
  · rw [hlogic']
    split_ifs
    · exact hholds.predict
    · exact hholds
  · intro hpredicts _
    rw [hlogic', if_pos hpredicts]
    rfl

/-- **Any number of downloads.** If each took some time, all are measured, and the trace holds the last ones, at most
five. -/
theorem run_spec (m : Libm) (hne : bandwidths ≠ [])
    (hindex : adaptation = 2 → ∃ last, at? bandwidths last_index = some last)
    (hpos : ∀ d ∈ ds, d.beginTime < d.endTime) :
    ∃ v ts, downloaded m bandwidths (.create adaptation last_index) ds = some v ∧
      After bandwidths (decide (adaptation ≠ 2)) ds v ts := by
  induction ds using List.reverseRecOn with
  | nil =>
    have hholds : (VideoLogic.create adaptation last_index).logic.Holds [] := by
      unfold VideoLogic.create
      split_ifs <;> exact Logic.holds_construct
    have hkind : (VideoLogic.create adaptation last_index).predicts = decide (adaptation ≠ 2) := by
      unfold VideoLogic.create
      split_ifs with h0 h1 h2
      · rw [h0]
        rfl
      · rw [h1]
        rfl
      · rw [h2]
        rfl
      · exact (decide_eq_true h2).symm
    exact ⟨_, [], rfl, ready_create hne hindex, hkind, rfl, hholds, fun _ h => absurd rfl h⟩
  | append_singleton ds d ih =>
    obtain ⟨v, ts, hv, hafter⟩ := ih fun d' hd' => hpos d' (List.mem_append_left _ hd')
    obtain ⟨v', t, hv', hafter'⟩ := step_spec m hne hafter (hpos d (by simp))
    refine ⟨v', ts ++ [t], ?_, hafter'⟩
    rw [downloaded] at hv ⊢
    rw [List.foldlM_append, hv]
    exact (congrArg (· >>= pure) hv').trans (by simp)

/-! ## The prediction -/

/-- what the measurements are for: the trace holds the last ones, at most five, in order; a logic that predicts takes no
reciprocal of 0, and its prediction lies between the least and the greatest rate -/
structure Predicted (v : VideoLogic) (ds : List Download) : Prop where
  trace : v.logic.throughputTrace.map some = (ds.map Download.measured).rtake 5
  finite : v.predicts = true → Logic.reciprocalSum v.logic.throughputTrace ≠ none
  mean : v.predicts = true → ∃ p, v.logic.predictBandwidth = some p ∧
    ∃ lo ∈ v.logic.throughputTrace, ∃ hi ∈ v.logic.throughputTrace,
      (∀ t ∈ v.logic.throughputTrace, lo.bitRate ≤ t.bitRate ∧ t.bitRate ≤ hi.bitRate) ∧
        (lo.bitRate.toNat : ℚ) ≤ p ∧ p ≤ hi.bitRate.toNat

/-- the rate of a download is not 0: the size in bits times 1000, in 32 bits, is at least the duration -/
def Measurable (d : Download) : Prop := (d.endTime - d.beginTime).toNat ≤ d.size.toNat * 8 * 1000 % 2 ^ 32

instance (d : Download) : Decidable (Measurable d) := by
  unfold Measurable; infer_instance

theorem bitRate_ne_zero_iff {t : ThroughputTrace} (hd : d.beginTime < d.endTime) (ht : d.measured = some t) :
    t.bitRate ≠ 0 ↔ Measurable d := by
  have hn : 0 < (d.endTime - d.beginTime).toNat := by omega
  have hfits : d.size.toNat * 8 * 1000 % 2 ^ 32 / (d.endTime - d.beginTime).toNat < 2 ^ 32 :=
    (Nat.div_le_self _ _).trans_lt (Nat.mod_lt _ (by decide))
  rw [Download.measured, updateThroughput_eq hd, Option.some.injEq] at ht
  rw [← ht, Measurable, ← Nat.one_le_div_iff hn, ne_eq, ← UInt32.toNat_inj, UInt32.toNat_ofNat', Nat.mod_eq_of_lt hfits]
  exact Nat.one_le_iff_ne_zero.symm

theorem After.trace (h : After bandwidths predicts ds v ts) :
    v.logic.throughputTrace.map some = (ds.map Download.measured).rtake 5 := by
  rw [h.holds.trace, h.measured, List.rtake, List.rtake, List.map_drop, List.length_map]

/-- **The prediction.** After some downloads it is a mean of the rates exactly when none of the last ones, at most five,
has a rate of 0. -/
theorem predicted_iff (h : After bandwidths true ds v ts) (hds : ds ≠ []) :
    Predicted v ds ↔ ∀ t ∈ ts.rtake 5, t.bitRate ≠ 0 := by
  have htrace := h.holds.trace
  have hts : ts.rtake 5 ≠ [] := by
    have hlength := congrArg List.length h.measured
    rw [List.length_map, List.length_map] at hlength
    rw [← List.length_pos_iff, Window.length_rtake, ← hlength]
    exact lt_min (by decide) (List.length_pos_iff.2 hds)
  constructor
  · intro hpredicted t ht hzero
    rw [← htrace] at ht
    exact hpredicted.finite h.kind (Logic.reciprocalSum_eq_none_iff.2 ⟨t, ht, hzero⟩)
  · intro hrates
    rw [← htrace] at hts hrates
    obtain ⟨p, hp, hbounds⟩ := Logic.predict_bounds hts hrates
    refine ⟨h.trace, fun _ hnone => ?_, fun _ => ⟨p, (h.predicted rfl hds).trans hp, hbounds⟩⟩
    obtain ⟨t, ht, hzero⟩ := Logic.reciprocalSum_eq_none_iff.1 hnone
    exact hrates t ht hzero

/-- a logic without prediction keeps the trace -/
theorem predicted_of_not (h : After bandwidths false ds v ts) : Predicted v ds where
  trace := h.trace
  finite := fun hpredicts => absurd (h.kind.symm.trans hpredicts) Bool.false_ne_true
  mean := fun hpredicts => absurd (h.kind.symm.trans hpredicts) Bool.false_ne_true

/-- what was measured belongs to a download -/
theorem After.exists_download (h : After bandwidths predicts ds v ts) {t : ThroughputTrace} (ht : t ∈ ts) :
    ∃ d ∈ ds, d.measured = some t := by
  have hmem : some t ∈ ds.map Download.measured := by
    rw [h.measured]
    exact List.mem_map_of_mem ht
  exact List.mem_map.1 hmem

/-- the last download is among the last measurements -/
theorem After.exists_last (h : After bandwidths predicts (ds ++ [d]) v ts) : ∃ t ∈ ts.rtake 5, d.measured = some t := by
  have hmeasured := h.measured
  rw [List.map_append, List.map_singleton] at hmeasured
  obtain ⟨ts', last, rfl, -, hlast⟩ := List.map_eq_append_iff.1 hmeasured.symm
  obtain ⟨t, rfl, ht⟩ := List.map_eq_singleton_iff.1 hlast
  refine ⟨t, ?_, ht.symm⟩
  rw [List.rtake_concat_succ]
  exact List.mem_append_right _ (List.mem_singleton_self t)

/-- **Every run.** For all four logics and all downloads of positive duration, the trace has held the last measurements
and the prediction been a mean of their rates after each download, exactly when the logic does not predict or no download
is measured with a rate of 0. -/
theorem prediction_iff (m : Libm) (hne : bandwidths ≠ [])
    (hindex : adaptation = 2 → ∃ last, at? bandwidths last_index = some last)
    (hpos : ∀ d ∈ ds, d.beginTime < d.endTime) :
    (∀ k, 1 ≤ k → k ≤ ds.length →
        ∃ v, downloaded m bandwidths (.create adaptation last_index) (ds.take k) = some v ∧ Predicted v (ds.take k)) ↔
      adaptation = 2 ∨ ∀ d ∈ ds, Measurable d := by
  have hrun : ∀ k, ∃ v ts, downloaded m bandwidths (.create adaptation last_index) (ds.take k) = some v ∧
      After bandwidths (decide (adaptation ≠ 2)) (ds.take k) v ts := fun k =>
    run_spec m hne hindex fun d hd => hpos d (List.mem_of_mem_take hd)
  by_cases hadaptation : adaptation = 2
  · refine iff_of_true (fun k _ _ => ?_) (Or.inl hadaptation)
    obtain ⟨v, ts, hv, hafter⟩ := hrun k
    rw [decide_eq_false (not_not_intro hadaptation)] at hafter
    exact ⟨v, hv, predicted_of_not hafter⟩
  · rw [or_iff_right hadaptation]
    rw [decide_eq_true hadaptation] at hrun
    constructor
    · intro h d hd
      obtain ⟨i, hi, rfl⟩ := List.getElem_of_mem hd
      obtain ⟨v, hv, hpredicted⟩ := h (i + 1) (by omega) hi
      obtain ⟨v', ts, hv', hafter⟩ := hrun (i + 1)
      obtain rfl := Option.some.inj (hv.symm.trans hv')
      have htake : ds.take (i + 1) = ds.take i ++ [ds[i]] := (List.take_concat_get' ds i hi).symm
      rw [htake] at hpredicted hafter
      obtain ⟨t, ht, hmeasured⟩ := hafter.exists_last
      have hrate := (predicted_iff hafter (List.append_ne_nil_of_right_ne_nil _ (List.cons_ne_nil _ []))).1 hpredicted t ht
      exact (bitRate_ne_zero_iff (hpos _ hd) hmeasured).1 hrate
    · intro h k hk hle
      obtain ⟨v, ts, hv, hafter⟩ := hrun k
      have htake : ds.take k ≠ [] := by
        rw [← List.length_pos_iff, List.length_take]
        omega
      refine ⟨v, hv, (predicted_iff hafter htake).2 fun t ht => ?_⟩
      obtain ⟨d, hd, hmeasured⟩ := hafter.exists_download (List.mem_of_mem_drop ht)
      have hd' := List.mem_of_mem_take hd
      exact (bitRate_ne_zero_iff (hpos d hd') hmeasured).2 (h d hd')

end Runs

/-- half a megabyte in one second, then in two -/
def twoDownloads : List Download := [⟨0, 1000, 500000, 50⟩, ⟨1000, 3000, 500000, 60⟩]

theorem prediction_two_downloads :
    (∀ d ∈ twoDownloads, Measurable d) ∧ ∀ k, 1 ≤ k → k ≤ twoDownloads.length →
      ∃ v, downloaded .roots [1000000] (.create 1 0) (twoDownloads.take k) = some v ∧
        Predicted v (twoDownloads.take k) := by
  have hmeasurable : ∀ d ∈ twoDownloads, Measurable d := by decide
  exact ⟨hmeasurable,
    (prediction_iff .roots (by decide) (fun h => absurd h (by decide)) (by decide)).2 (Or.inr hmeasurable)⟩

/-- after an empty segment the reciprocal of its rate of 0 is taken -/
theorem prediction_empty_segment :
    ∃ v, downloaded .roots [1000000] (.create 1 0) [⟨0, 1000, 0, 50⟩] = some v ∧
      Logic.reciprocalSum v.logic.throughputTrace = none ∧ ¬ Predicted v [⟨0, 1000, 0, 50⟩] := by
  have hrun : downloaded .roots [1000000] (.create 1 0) [⟨0, 1000, 0, 50⟩] =
      some (.rateBase (Logic.construct.update 50 ⟨0, 1000, 0, 0⟩).predict) := by
    decide +kernel
  have hnone : Logic.reciprocalSum (Logic.construct.update 50 ⟨0, 1000, 0, 0⟩).predict.throughputTrace = none := by
    decide +kernel
  exact ⟨_, hrun, hnone, fun h => h.finite rfl hnone⟩

end NdnDash.Adaptation
