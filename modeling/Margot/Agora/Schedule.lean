/-
The exploration as the clients see it.  Whoever asks, the configurations that
are sent after the DOE of the handler has been read are those of its schedule,
in its order.
-/
import Margot.Agora.Doe
import Margot.Agora.Outcomes

namespace Margot.Agora

open Heel Csv

/-- The configurations that have been sent, the latest first. -/
def configurationsSent : List Event → List Configuration
  | [] => []
  | .sent _ _ (.explore _ configuration) :: rest =>
      configuration :: configurationsSent rest
  | _ :: rest => configurationsSent rest

namespace DoeModel

/-- What is left after the first calls of `get_next`. -/
def after : Nat → DoeModel → DoeModel
  | 0, doe => doe
  | calls + 1, doe =>
      match doe.getNext with
      | none => doe
      | some (_, rest) => after calls rest

/-- Only configurations that are still required. -/
def Required (doe : DoeModel) : Prop :=
  ∀ entry ∈ doe.requiredExplorations, 0 < entry.numberOfExplorations

section Calls

variable {doe : DoeModel}

theorem after_of_getNext_eq_none (hnone : doe.getNext = none) (calls : Nat) :
    doe.after calls = doe := by
  cases calls with
  | zero => rfl
  | succ calls => rw [after, hnone]

/-- The next call takes what the calls before it have left. -/
theorem explore_succ (calls : Nat) (doe : DoeModel) :
    doe.explore (calls + 1) =
      doe.explore calls ++ [(doe.after calls).getNext.map Prod.fst] := by
  induction calls generalizing doe with
  | zero =>
      rw [explore, explore, after]
      cases doe.getNext <;> rfl
  | succ calls ih =>
      rw [explore, explore, after]
      cases hnext : doe.getNext with
      | none =>
          have hrest := ih doe
          rw [explore, hnext, after_of_getNext_eq_none hnext, hnext] at hrest
          rw [hnext]
          exact congrArg (none :: ·) hrest
      | some result =>
          obtain ⟨entry, rest⟩ := result
          simp only [ih, List.cons_append]

theorem after_succ {calls : Nat} {entry : ConfigurationModel} {rest : DoeModel}
    (hnext : (doe.after calls).getNext = some (entry, rest)) :
    doe.after (calls + 1) = rest := by
  induction calls generalizing doe with
  | zero =>
      rw [after] at hnext
      rw [after, hnext]
      rfl
  | succ calls ih =>
      rw [after] at hnext ⊢
      cases hfirst : doe.getNext with
      | none =>
          rw [hfirst] at hnext
          rw [hfirst] at hnext
          contradiction
      | some result =>
          rw [hfirst] at hnext
          exact ih hnext

end Calls

/-- The positions of the configurations in the order of the first calls. -/
def schedule (doe : DoeModel) (calls : Nat) : List Nat :=
  RoundRobin.served calls doe.places

section Schedule

variable {doe : DoeModel}

theorem positive_places (hrequired : doe.Required) :
    RoundRobin.Positive doe.places := by
  intro entry hentry
  obtain ⟨⟨stored, position⟩, hplace, rfl⟩ := List.mem_map.mp hentry
  have hstored := List.mk_mem_zipIdx_iff_getElem?.mp hplace
  exact hrequired stored (List.mem_of_getElem? hstored)

theorem nodup_places (doe : DoeModel) : (doe.places.map Prod.fst).Nodup := by
  rw [map_fst_places]
  exact List.nodup_range

theorem requiredAt_eq {position : Nat} {entry : ConfigurationModel}
    (hentry : doe.requiredExplorations[position]? = some entry) :
    doe.requiredAt position = entry.numberOfExplorations := by
  rw [requiredAt, hentry, Option.elim_some]

/-- Nothing is scheduled more often than it is required. -/
theorem count_schedule_le (hrequired : doe.Required) (calls position : Nat) :
    ((doe.schedule calls).count position : Int) ≤ doe.requiredAt position := by
  have hpositive := positive_places hrequired
  rw [schedule, RoundRobin.served_eq_take hpositive,
    ← RoundRobin.count_served doe.totals_places hpositive doe.nodup_places]
  exact_mod_cast (List.take_sublist _ _).count_le position

/-- Of two configurations that are still required neither is ahead of the other
by more than one time. -/
theorem count_schedule_le_succ (hrequired : doe.Required) (calls : Nat)
    {position other : Nat}
    (hposition : ((doe.schedule calls).count position : Int) <
      doe.requiredAt position)
    (hother : ((doe.schedule calls).count other : Int) <
      doe.requiredAt other) :
    (doe.schedule calls).count position ≤
      (doe.schedule calls).count other + 1 :=
  RoundRobin.count_le_succ doe.totals_places (positive_places hrequired)
    doe.nodup_places calls hposition hother

/-- The calls return the configurations of the schedule. -/
theorem explore_eq_schedule (doe : DoeModel) (calls : Nat) :
    (doe.explore calls).map (Option.map (·.identity)) =
      ((doe.schedule calls).map fun position =>
        (doe.requiredExplorations[position]?).map (·.identity)) ++
      List.replicate (calls - (doe.schedule calls).length) none :=
  explore_eq doe.jobs_eq_places calls

theorem length_explore (calls : Nat) (doe : DoeModel) :
    (doe.explore calls).length = calls := by
  induction calls generalizing doe with
  | zero => rfl
  | succ calls ih =>
      rw [explore]
      cases doe.getNext with
      | none => rw [List.length_cons, ih]
      | some result => rw [List.length_cons, ih]

/-- What the calls leave, when the jobs are told by their positions. -/
theorem after_eq {queue : List (Nat × Int)}
    {identityAt : Nat → Option (Text × Configuration)}
    (hsame : doe.jobs.map (Prod.map some id) =
      queue.map (Prod.map identityAt id)) (calls : Nat) :
    (doe.after calls).jobs.map (Prod.map some id) =
      (RoundRobin.left calls queue).map (Prod.map identityAt id) := by
  induction calls generalizing doe queue with
  | zero => exact hsame
  | succ calls ih =>
      have hserve := RoundRobin.serve_map some doe.jobs
      rw [hsame, RoundRobin.serve_map, ← getNext_eq_serve] at hserve
      rw [after, RoundRobin.left]
      cases hnext : doe.getNext with
      | none =>
          rw [hnext, Option.map_none, Option.map_none,
            Option.map_eq_none_iff] at hserve
          rw [hserve]
          exact hsame
      | some result =>
          obtain ⟨entry, rest⟩ := result
          rw [hnext, Option.map_some, Option.map_some,
            Option.map_eq_some_iff] at hserve
          obtain ⟨⟨position, others⟩, hserve, hresult⟩ := hserve
          rw [hserve]
          exact ih (Prod.mk.inj hresult).2.symm

/-- A call that returns nothing has no place in the schedule. -/
theorem schedule_succ {calls : Nat}
    (hnone : (doe.after calls).getNext = none) :
    doe.schedule (calls + 1) = doe.schedule calls := by
  have hjobs := after_eq doe.jobs_eq_places calls
  have hempty : (doe.after calls).jobs = [] := by
    have hserve := getNext_eq_serve (doe.after calls)
    rw [hnone, Option.map_none] at hserve
    exact RoundRobin.serve_eq_none.mp hserve.symm
  rw [hempty, List.map_nil, eq_comm, List.map_eq_nil_iff] at hjobs
  rw [schedule, RoundRobin.served_add, hjobs, ← schedule,
    RoundRobin.served_of_serve_eq_none rfl, List.append_nil]

/-- A schedule that ends early has served everything. -/
theorem count_schedule_of_length_lt (hrequired : doe.Required) {calls : Nat}
    (hshort : (doe.schedule calls).length < calls) (position : Nat) :
    ((doe.schedule calls).count position : Int) = doe.requiredAt position := by
  have hpositive := positive_places hrequired
  have hmany : RoundRobin.turnsOf doe.places ≤ calls := by
    by_contra hfew
    rw [schedule, RoundRobin.served_eq_take hpositive, List.length_take,
      RoundRobin.length_served hpositive] at hshort
    omega
  rw [schedule, RoundRobin.served_eq_take hpositive, List.take_of_length_le,
    RoundRobin.count_served doe.totals_places hpositive doe.nodup_places]
  rw [RoundRobin.length_served hpositive]
  exact hmany

end Schedule

end DoeModel

namespace Handler

/-- What has been sent of the DOE is what the first calls on it have returned,
and nothing has been sent since. -/
structure Follows (h : Handler) : Prop where
  sent : h.explored.reverse.map some =
    (h.loaded.explore h.explored.length).map (Option.map (·.configuration))
  latest : h.explored <+: configurationsSent h.history

/-- The handler keeps what the calls have left of the DOE. -/
def Leaves (h : Handler) : Prop :=
  h.doe = h.loaded.after h.explored.length

variable {h g : Handler}

/-- The DOE has just been read, or dropped. -/
structure Anew (g : Handler) : Prop where
  loaded : g.loaded = g.doe
  explored : g.explored = []

theorem Anew.follows (hanew : g.Anew) : g.Follows where
  sent := by
    rw [hanew.explored]
    rfl
  latest := by
    rw [hanew.explored]
    exact List.nil_prefix

theorem Anew.leaves (hanew : g.Anew) : g.Leaves := by
  rw [Leaves, hanew.explored, hanew.loaded]
  rfl

/-- The DOE is the same, and what has been sent of it. -/
structure SameDoe (h g : Handler) : Prop where
  doe : g.doe = h.doe
  loaded : g.loaded = h.loaded
  explored : g.explored = h.explored

theorem SameDoe.trans {k : Handler} (hg : h.SameDoe g) (hk : g.SameDoe k) :
    h.SameDoe k :=
  ⟨hk.doe.trans hg.doe, hk.loaded.trans hg.loaded,
    hk.explored.trans hg.explored⟩

theorem Follows.of_same (hfollows : h.Follows) (hloaded : g.loaded = h.loaded)
    (hexplored : g.explored = h.explored)
    (hsent : configurationsSent g.history = configurationsSent h.history) :
    g.Follows where
  sent := by
    rw [hexplored, hloaded]
    exact hfollows.sent
  latest := by
    rw [hexplored, hsent]
    exact hfollows.latest

theorem SameDoe.leaves (hsame : h.SameDoe g) (hleaves : h.Leaves) :
    g.Leaves := by
  rw [Leaves, hsame.doe, hsame.loaded, hsame.explored]
  exact hleaves

/-- Another configuration is the next one of the schedule. -/
theorem Follows.sendConfiguration [HashOrder Text] {sender : Sender}
    {cid : ClientId} (hfollows : h.Follows) (hleaves : h.Leaves)
    (hsent : h.sendConfiguration sender cid = .ok g) :
    g.Follows ∧ g.Leaves ∧ g.loaded = h.loaded := by
  obtain ⟨-, rfl⟩ | ⟨entry, doe, hnext, -, rfl⟩ := sendConfiguration_eq_ok.mp hsent
  · exact ⟨hfollows, hleaves, rfl⟩
  · rw [hleaves] at hnext
    refine ⟨⟨?_, ?_⟩, (DoeModel.after_succ hnext).symm, rfl⟩
    · have hloaded : (h.record (.sent sender h.handlerStatus
          (.explore cid entry.configuration))).loaded = h.loaded := rfl
      simp only [List.length_cons, List.reverse_cons, List.map_append, hloaded,
        DoeModel.explore_succ, hnext, hfollows.sent]
      rfl
    · exact (List.prefix_cons_inj entry.configuration).mpr hfollows.latest

section Turns

variable {storage : Storage} {position : Position} {input : Input}
  {next : Handler × Position}

/-- The DOE, the predictions and the description are the same. -/
structure SameSupply (h g : Handler) : Prop extends SameDoe h g where
  prediction : g.prediction = h.prediction
  description : g.description = h.description

theorem SameSupply.trans {k : Handler} (hg : h.SameSupply g)
    (hk : g.SameSupply k) : h.SameSupply k :=
  ⟨hg.toSameDoe.trans hk.toSameDoe, hk.prediction.trans hg.prediction,
    hk.description.trans hg.description⟩

theorem sameSupply_rfl (h : Handler) : h.SameSupply h :=
  ⟨⟨rfl, rfl, rfl⟩, rfl, rfl⟩

/-- What has been read of the storage, for the description that the handler
knows. -/
def Reread (g : Handler) {A : Type} (load : BlockModel → A) (data : A) : Prop :=
  .clueless ∉ g.handlerStatus ∧ data = load g.description

/-- No configuration is sent; the DOE and the predictions are as they were, or
they are read or dropped. -/
structure Rereads (h : Handler) (storage : Storage) (g : Handler) : Prop where
  doe : h.SameDoe g ∨ (g.doe = .clear ∧ g.Anew) ∨
    (g.Reread storage.loadDoe g.doe ∧ g.Anew)
  prediction : g.prediction = h.prediction ∨ g.prediction = .clear ∨
    g.Reread storage.loadPrediction g.prediction
  sent : configurationsSent g.history = configurationsSent h.history

theorem SameSupply.rereads (hsame : h.SameSupply g)
    (hsent : configurationsSent g.history = configurationsSent h.history) :
    h.Rereads storage g :=
  ⟨.inl hsame.toSameDoe, .inl hsame.prediction, hsent⟩

/-- The DOE and the predictions are as they were, or they are what the storage
holds for the description. -/
structure Refreshes (h : Handler) (storage : Storage) (g : Handler) : Prop where
  doe : h.SameDoe g ∨ (g.doe = storage.loadDoe g.description ∧ g.Anew)
  prediction : g.prediction = h.prediction ∨
    g.prediction = storage.loadPrediction g.description

theorem Refreshes.rereads (hrefreshes : h.Refreshes storage g)
    (hknown : .clueless ∉ g.handlerStatus)
    (hsent : configurationsSent g.history = configurationsSent h.history) :
    h.Rereads storage g :=
  ⟨hrefreshes.doe.imp_right fun ⟨hread, hanew⟩ => .inr ⟨⟨hknown, hread⟩, hanew⟩,
    hrefreshes.prediction.imp_right fun hread => .inr ⟨hknown, hread⟩, hsent⟩

theorem SameSupply.refreshes (hsame : h.SameSupply g) :
    h.Refreshes storage g :=
  ⟨.inl hsame.toSameDoe, .inl hsame.prediction⟩

theorem Recovers.known {cid : ClientId} (hnext : h.Recovers cid next) :
    .clueless ∉ next.1.handlerStatus := by
  cases hnext with
  | launched _ hstatus => rcases hstatus with hg | hg <;> rw [hg] <;> decide
  | done _ hstatus =>
      rcases hstatus with hg | hg | hg <;> rw [hg] <;> decide

theorem sameSupply_recoverDoe (h : Handler) (cid : ClientId) :
    h.SameSupply (h.recoverDoe cid).1 := by
  rw [recoverDoe]
  split
  · exact ⟨⟨rfl, rfl, rfl⟩, rfl, rfl⟩
  · exact ⟨⟨rfl, rfl, rfl⟩, rfl, rfl⟩

theorem sameSupply_recoverPrediction (h : Handler) (storage : Storage)
    (cid : ClientId) : h.SameSupply (h.recoverPrediction storage cid).1 := by
  rw [recoverPrediction]
  split
  · exact ⟨⟨rfl, rfl, rfl⟩, rfl, rfl⟩
  · split
    · exact ⟨⟨rfl, rfl, rfl⟩, rfl, rfl⟩
    · exact h.sameSupply_recoverDoe cid

theorem recoverStorage_supply (h : Handler) (storage : Storage) :
    (h.recoverStorage storage).doe = storage.loadDoe h.description ∧
      (h.recoverStorage storage).Anew ∧
      (h.recoverStorage storage).prediction =
        storage.loadPrediction h.description ∧
      (h.recoverStorage storage).description = h.description := by
  rw [recoverStorage]
  split
  · exact ⟨rfl, ⟨rfl, rfl⟩, rfl, rfl⟩
  · exact ⟨rfl, ⟨rfl, rfl⟩, rfl, rfl⟩

theorem Anew.of_same (hanew : h.Anew) (hsame : h.SameDoe g) : g.Anew where
  loaded := by rw [hsame.loaded, hsame.doe, hanew.loaded]
  explored := by rw [hsame.explored, hanew.explored]

/-- A session starts with what the storage holds for the description. -/
theorem refreshes_startSession (h : Handler) (storage : Storage)
    (cid : ClientId) : h.Refreshes storage (h.startSession storage cid).1 := by
  rw [startSession, startRecovering]
  have hread := recoverStorage_supply ((h.record (.session
    h.numConfigurationsSentPerIteration)).initializePluginLaunchers.setState
      {.recovering}) storage
  generalize recoverStorage _ storage = recovered at hread ⊢
  obtain ⟨hdoe, hanew, hprediction, hdescription⟩ := hread
  have hsame := recovered.sameSupply_recoverPrediction storage cid
  constructor
  · refine .inr ⟨?_, hanew.of_same hsame.toSameDoe⟩
    rw [hsame.doe, hsame.description, hdoe, hdescription]
  · rw [hsame.prediction, hsame.description, hprediction, hdescription]
    exact .inr rfl

theorem parseInformations_supply (h : Handler)
    (app : Option ApplicationModel) :
    h.SameDoe (h.parseInformations app).1 ∧
      (h.parseInformations app).1.prediction = h.prediction := by
  rw [parseInformations]
  split
  · exact ⟨⟨rfl, rfl, rfl⟩, rfl⟩
  · simp only
    split
    · exact ⟨⟨rfl, rfl, rfl⟩, rfl⟩
    · exact ⟨⟨rfl, rfl, rfl⟩, rfl⟩

theorem rereads_welcomeClient (h : Handler) (storage : Storage)
    (cid : ClientId) (app : Option ApplicationModel) :
    h.Rereads storage (h.welcomeClient storage cid app).1 := by
  have hsent : configurationsSent (h.welcomeClient storage cid app).1.history =
      configurationsSent h.history := by
    have hwelcomes := h.welcomes_welcomeClient storage cid app
    generalize h.welcomeClient storage cid app = next at hwelcomes
    cases hwelcomes with
    | refused _ _ hkeeps _ => exact congrArg configurationsSent hkeeps.history
    | opened _ _ _ _ hhistory hrecovers =>
        rw [hrecovers.keeps.history, hhistory]
        rfl
    | registered _ => rfl
  have hsupply := (h.addClient cid).parseInformations_supply app
  rw [welcomeClient] at hsent ⊢
  by_cases hclueless : (h.addClient cid).checkState .clueless = true
  · rw [if_pos hclueless] at hsent ⊢
    generalize (h.addClient cid).parseInformations app = parsed at *
    obtain ⟨informed, started⟩ := parsed
    obtain ⟨hdoe, hprediction⟩ := hsupply
    have hsame : h.SameDoe informed := ⟨hdoe.doe, hdoe.loaded, hdoe.explored⟩
    cases started with
    | false => exact ⟨.inl hsame, .inl hprediction, hsent⟩
    | true =>
        have hknown : .clueless ∉
            (informed.startSession storage cid).1.handlerStatus :=
          (recovers_startRecovering _ storage cid).known
        have hrefreshes := informed.refreshes_startSession storage cid
        refine Refreshes.rereads ⟨?_, ?_⟩ hknown hsent
        · exact hrefreshes.doe.imp_left hsame.trans
        · exact hrefreshes.prediction.imp_left fun hsame =>
            hsame.trans hprediction
  · rw [if_neg hclueless] at hsent ⊢
    exact ⟨.inl ⟨rfl, rfl, rfl⟩, .inl rfl, hsent⟩

theorem rereads_byeClient (h : Handler) (storage : Storage) (cid : ClientId) :
    h.Rereads storage (h.byeClient cid).1 := by
  rw [byeClient]
  simp only
  split
  · exact ⟨.inr (.inl ⟨rfl, rfl, rfl⟩), .inr (.inl rfl), rfl⟩
  · exact ⟨.inl ⟨rfl, rfl, rfl⟩, .inl rfl, rfl⟩

theorem refreshes_continueRecovery (h : Handler) (storage : Storage)
    (cid : ClientId) (phase : Phase) :
    h.Refreshes storage (h.continueRecovery storage cid phase).1 := by
  unfold continueRecovery
  split
  · split
    · exact ⟨.inr ⟨rfl, rfl, rfl⟩, .inl rfl⟩
    · exact ⟨.inr ⟨rfl, rfl, rfl⟩, .inl rfl⟩
  · split
    · exact ⟨.inl ⟨rfl, rfl, rfl⟩, .inr rfl⟩
    · have hsame := (h.loadPrediction storage).sameSupply_recoverDoe cid
      refine ⟨.inl ⟨hsame.doe, hsame.loaded, hsame.explored⟩, .inr ?_⟩
      rw [hsame.prediction, hsame.description]
      rfl

theorem rereads_continueRecovery (h : Handler) (storage : Storage)
    (cid : ClientId) (phase : Phase) :
    h.Rereads storage (h.continueRecovery storage cid phase).1 := by
  have hrecovers := h.recovers_continueRecovery storage cid phase
  exact (h.refreshes_continueRecovery storage cid phase).rereads hrecovers.known
    (congrArg configurationsSent hrecovers.keeps.history)

variable [HashOrder Text]

theorem Continues.known (hnext : h.Continues next) :
    .clueless ∉ next.1.handlerStatus := by
  cases hnext with
  | launched _ hstatus => rcases hstatus with hg | hg <;> rw [hg] <;> decide
  | restarted _ hstatus => rw [hstatus]; decide
  | predicted _ hstatus =>
      rw [record]
      simp only [hstatus]
      decide
  | exhausted _ hstatus => rw [hstatus]; decide

theorem sameSupply_explore (h : Handler) : h.SameSupply h.explore.1 := by
  rw [explore]
  split
  · exact ⟨⟨rfl, rfl, rfl⟩, rfl, rfl⟩
  · exact ⟨⟨rfl, rfl, rfl⟩, rfl, rfl⟩

theorem sameSupply_predict (h : Handler) : h.SameSupply h.predict.1 := by
  rw [predict]
  split
  · exact ⟨⟨rfl, rfl, rfl⟩, rfl, rfl⟩
  · exact h.sameSupply_explore

omit [HashOrder Text] in
theorem sameSupply_checkModels (h : Handler) (storage : Storage) :
    h.SameSupply (h.checkModels storage) := by
  rw [checkModels]
  split
  · exact ⟨⟨rfl, rfl, rfl⟩, rfl, rfl⟩
  · exact h.sameSupply_rfl

omit [HashOrder Text] in
theorem sameSupply_checkClusters (h : Handler) (storage : Storage) :
    h.SameSupply (h.checkClusters storage) := by
  rw [checkClusters]
  split
  · split
    · exact ⟨⟨rfl, rfl, rfl⟩, rfl, rfl⟩
    · exact ⟨⟨rfl, rfl, rfl⟩, rfl, rfl⟩
  · exact h.sameSupply_rfl

theorem refreshes_continueObservation {phase : Phase}
    (hnext : h.continueObservation storage phase = .ok next) :
    h.Refreshes storage next.1 := by
  cases resumes_of_continueObservation hnext with
  | modeled =>
      have hchecked := (h.sameSupply_checkModels storage).trans
        (sameSupply_checkClusters _ storage)
      exact (hchecked.trans (sameSupply_predict _)).refreshes
  | predicted _ => exact ⟨.inl ⟨rfl, rfl, rfl⟩, .inr rfl⟩
  | unpredicted _ =>
      have hsame := (h.loadPrediction storage).sameSupply_explore
      refine ⟨.inl ⟨hsame.doe, hsame.loaded, hsame.explored⟩, .inr ?_⟩
      rw [hsame.prediction, hsame.description]
      rfl
  | designed _ => exact ⟨.inr ⟨rfl, rfl, rfl⟩, .inl rfl⟩
  | undesigned => exact ⟨.inr ⟨rfl, rfl, rfl⟩, .inl rfl⟩

theorem rereads_continueObservation {phase : Phase}
    (hnext : h.continueObservation storage phase = .ok next) :
    h.Rereads storage next.1 := by
  have hcontinues := continues_continueObservation hnext
  refine (refreshes_continueObservation hnext).rereads hcontinues.known ?_
  cases hcontinues with
  | launched hkeeps _ => exact congrArg configurationsSent hkeeps.history
  | restarted hkeeps _ => exact congrArg configurationsSent hkeeps.history
  | predicted hkeeps _ =>
      simp only [record, configurationsSent, hkeeps.history]
  | exhausted hkeeps _ => exact congrArg configurationsSent hkeeps.history

/-- A turn sends a configuration to a client and does nothing else, or it sends
none. -/
theorem turn_rereads (hturn : h.Turn storage position input next) :
    h.Rereads storage next.1 ∨
      ∃ sender cid, h.sendConfiguration sender cid = .ok next.1 := by
  have hsame : ∀ {g : Handler}, h.SameSupply g →
      configurationsSent g.history = configurationsSent h.history →
        h.Rereads storage g := fun hsupply hsent => hsupply.rereads hsent
  cases hturn with
  | welcome cid app => exact .inl (h.rereads_welcomeClient storage cid app)
  | bye cid => exact .inl (h.rereads_byeClient storage cid)
  | observation cid =>
      rw [processObservation]
      split
      · exact .inl (hsame h.sameSupply_rfl rfl)
      · exact .inl (hsame h.sameSupply_rfl rfl)
  | next cid hnext =>
      cases advances_of_nextConfiguration hnext with
      | sent _ _ hsent => exact .inr ⟨_, cid, hsent⟩
      | iterated hiterates _ =>
          have hevents := congrArg configurationsSent hiterates.history
          refine .inl (hsame ?_ hevents)
          rw [hiterates.same]
          exact ⟨⟨rfl, rfl, rfl⟩, rfl, rfl⟩
  | awaited phase hnext => exact .inl (rereads_continueObservation hnext)
  | restart clients hnext =>
      cases clients with
      | nil =>
          obtain rfl := pure_eq_ok.mp hnext
          exact .inl (hsame h.sameSupply_rfl rfl)
      | cons cid rest =>
          obtain ⟨g, hsent, rfl⟩ := bind_pure_eq_ok.mp hnext
          exact .inr ⟨_, cid, hsent⟩
  | recovered cid phase =>
      exact .inl (h.rereads_continueRecovery storage cid phase)
  | answer cid hnext =>
      cases answers_of_answer hnext with
      | silent => exact .inl (hsame h.sameSupply_rfl rfl)
      | explore _ hsent => exact .inr ⟨_, cid, hsent⟩
      | prediction _ => exact .inl (hsame ⟨⟨rfl, rfl, rfl⟩, rfl, rfl⟩ rfl)
      | abort _ => exact .inl (hsame ⟨⟨rfl, rfl, rfl⟩, rfl, rfl⟩ rfl)

/-- The handler follows its DOE, which is of this kind. -/
structure Scheduled (Loaded : DoeModel → Prop) (h : Handler) : Prop where
  loaded : Loaded h.loaded
  follows : h.Follows

variable {Loaded : DoeModel → Prop}

omit [HashOrder Text] in
theorem Scheduled.rereads (hscheduled : h.Scheduled Loaded)
    (hleaves : h.Leaves) (hclear : Loaded .clear)
    (hstorage : ∀ description, Loaded (storage.loadDoe description))
    (hrereads : h.Rereads storage g) : g.Scheduled Loaded ∧ g.Leaves := by
  rcases hrereads.doe with hsame | ⟨hdropped, hanew⟩ | ⟨⟨-, hread⟩, hanew⟩
  · have hfollows := hscheduled.follows.of_same hsame.loaded hsame.explored
      hrereads.sent
    exact ⟨⟨hsame.loaded ▸ hscheduled.loaded, hfollows⟩, hsame.leaves hleaves⟩
  · refine ⟨⟨?_, hanew.follows⟩, hanew.leaves⟩
    rw [hanew.loaded, hdropped]
    exact hclear
  · refine ⟨⟨?_, hanew.follows⟩, hanew.leaves⟩
    rw [hanew.loaded, hread]
    exact hstorage g.description

/-- A turn sends what comes next in the schedule, or nothing. -/
theorem turn_scheduled (hscheduled : h.Scheduled Loaded) (hleaves : h.Leaves)
    (hclear : Loaded .clear)
    (hstorage : ∀ description, Loaded (storage.loadDoe description))
    (hturn : h.Turn storage position input next) :
    next.1.Scheduled Loaded ∧ next.1.Leaves := by
  rcases turn_rereads hturn with hrereads | ⟨sender, cid, hsent⟩
  · exact hscheduled.rereads hleaves hclear hstorage hrereads
  · obtain ⟨hfollows, hleft, hloaded⟩ :=
      hscheduled.follows.sendConfiguration hleaves hsent
    exact ⟨⟨hloaded ▸ hscheduled.loaded, hfollows⟩, hleft⟩

omit [HashOrder Text] in
/-- An exception sends nothing; a configuration may be lost with it. -/
theorem Fails.scheduled (hscheduled : h.Scheduled Loaded)
    (hfails : h.Fails position g) : g.Scheduled Loaded := by
  obtain ⟨hloaded, hfollows⟩ := hscheduled
  cases hfails with
  | answer cid doe => exact ⟨hloaded, hfollows.of_same rfl rfl rfl⟩
  | restart clients doe => exact ⟨hloaded, hfollows.of_same rfl rfl rfl⟩
  | next cid doe _ => exact ⟨hloaded, hfollows.of_same rfl rfl rfl⟩
  | iterate cid hiterates =>
      rw [hiterates.same]
      exact ⟨hloaded, hfollows.of_same rfl rfl rfl⟩
  | broadcast prediction => exact ⟨hloaded, hfollows.of_same rfl rfl rfl⟩

end Turns

section Positions

/-- What has been sent of the DOE, and nothing has been sent since, are the
configurations at the positions, none of them more often than it is required,
and of two that are still required neither is ahead of the other by more than
one time. -/
structure SentBy (h : Handler) (positions : List Nat) : Prop where
  latest : h.explored <+: configurationsSent h.history
  sent : h.explored.reverse.map some = positions.map fun position =>
    (h.loaded.requiredExplorations[position]?).map (·.configuration)
  required : ∀ position entry,
    h.loaded.requiredExplorations[position]? = some entry →
      (positions.count position : Int) ≤ entry.numberOfExplorations
  fair : ∀ position entry other otherEntry,
    h.loaded.requiredExplorations[position]? = some entry →
    h.loaded.requiredExplorations[other]? = some otherEntry →
    (positions.count position : Int) < entry.numberOfExplorations →
    (positions.count other : Int) < otherEntry.numberOfExplorations →
      positions.count position ≤ positions.count other + 1

/-- The handler keeps what the schedule leaves of the DOE.  Once nothing is
left, everything that is required has been sent. -/
structure LeftBy (h : Handler) (positions : List Nat) : Prop where
  left : h.doe = h.loaded.after positions.length
  complete : h.isDoeValid = false → ∀ position entry,
    h.loaded.requiredExplorations[position]? = some entry →
      (positions.count position : Int) = entry.numberOfExplorations

/-- The positions of what has been sent. -/
def places (h : Handler) : List Nat := h.loaded.schedule h.explored.length

/-- All the calls so far have returned something. -/
theorem Follows.length_places (hfollows : h.Follows) :
    h.places.length = h.explored.length := by
  have hserved := h.loaded.explore_eq_schedule h.explored.length
  have hlength := congrArg List.length hserved
  rw [List.length_map, DoeModel.length_explore, List.length_append,
    List.length_map, List.length_replicate, ← places] at hlength
  by_contra hshort
  have hnone : none ∈ (h.loaded.explore h.explored.length).map
      (Option.map (·.identity)) := by
    rw [hserved, ← places]
    apply List.mem_append_right
    rw [List.mem_replicate]
    exact ⟨by omega, rfl⟩
  obtain ⟨found, hmem, hfound⟩ := List.mem_map.mp hnone
  rw [Option.map_eq_none_iff] at hfound
  subst hfound
  have hsent : none ∈ (h.loaded.explore h.explored.length).map
      (Option.map (·.configuration)) := List.mem_map.mpr ⟨none, hmem, rfl⟩
  rw [← hfollows.sent] at hsent
  obtain ⟨configuration, -, hsome⟩ := List.mem_map.mp hsent
  contradiction

theorem Follows.sentBy (hfollows : h.Follows) (hrequired : h.loaded.Required) :
    h.SentBy h.places where
  latest := hfollows.latest
  sent := by
    have hserved := congrArg (List.map (Option.map Prod.snd))
      (h.loaded.explore_eq_schedule h.explored.length)
    rw [hfollows.sent]
    rw [← places, hfollows.length_places, Nat.sub_self, List.replicate_zero,
      List.append_nil, List.map_map, List.map_map] at hserved
    simpa [Function.comp_def, ConfigurationModel.identity] using hserved
  required := by
    intro position entry hentry
    rw [← DoeModel.requiredAt_eq hentry]
    exact DoeModel.count_schedule_le hrequired h.explored.length position
  fair := by
    intro position entry other otherEntry hentry hother hless hlessOther
    rw [← DoeModel.requiredAt_eq hentry] at hless
    rw [← DoeModel.requiredAt_eq hother] at hlessOther
    exact DoeModel.count_schedule_le_succ hrequired h.explored.length hless
      hlessOther

theorem Follows.leftBy (hfollows : h.Follows) (hleaves : h.Leaves)
    (hrequired : h.loaded.Required) : h.LeftBy h.places where
  left := by
    rw [hfollows.length_places]
    exact hleaves
  complete := by
    intro hexhausted position entry hentry
    have hnone : (h.loaded.after h.explored.length).getNext = none := by
      rw [← hleaves]
      rwa [isDoeValid_eq, Option.isSome_eq_false_iff,
        Option.isNone_iff_eq_none] at hexhausted
    rw [← DoeModel.requiredAt_eq hentry, places,
      ← DoeModel.schedule_succ hnone]
    apply DoeModel.count_schedule_of_length_lt hrequired
    rw [DoeModel.schedule_succ hnone, ← places, hfollows.length_places]
    exact Nat.lt_succ_self _

end Positions

end Handler

namespace Server

section Runs

variable {W : Type} [DecidableEq W] [HashOrder Text] {s t : Server W}

/-- The storage of the run at its start, or what a plugin has written. -/
def Supplies (storage : Storage) (actions : List (Action W))
    (supplied : Storage) : Prop :=
  supplied = storage ∨ ∃ worker, .produce worker supplied ∈ actions

/-- A DOE that is read from one of the storages, or none. -/
def Read (storage : Storage) (actions : List (Action W))
    (loaded : DoeModel) : Prop :=
  loaded = .clear ∨ ∃ supplied description,
    Supplies storage actions supplied ∧ loaded = supplied.loadDoe description

/-- What the run keeps of its storages and of the schedule. -/
structure Scheduling (storage : Storage) (actions : List (Action W))
    (s : Server W) : Prop where
  supplied : Supplies storage actions s.storage
  scheduled : s.handler.Scheduled (Read storage actions)
  leaves : s.terminated = false → s.handler.Leaves

theorem scheduling_step {storage : Storage} {actions : List (Action W)}
    {action : Action W} (hs : s.Scheduling storage actions)
    (haction : action ∈ actions) (hstep : s.step action = some t) :
    t.Scheduling storage actions := by
  cases action with
  | locked worker input =>
      obtain ⟨hrunning, -, ⟨next, hturn, rfl⟩ | ⟨g, hthrows, rfl⟩⟩ :=
        step_locked.mp hstep
      · obtain ⟨hscheduled, hleaves⟩ := Handler.turn_scheduled hs.scheduled
          (hs.leaves hrunning) (.inl rfl)
          (fun description => .inr ⟨s.storage, description, hs.supplied, rfl⟩)
          hturn
        exact ⟨hs.supplied, hscheduled, fun _ => hleaves⟩
      · exact ⟨hs.supplied,
          (Handler.fails_of_throws hthrows).scheduled hs.scheduled, nofun⟩
  | parse worker success =>
      obtain ⟨-, cid, -, rfl⟩ := step_parse.mp hstep
      exact ⟨hs.supplied, hs.scheduled, hs.leaves⟩
  | produce worker produced =>
      obtain ⟨-, -, rfl⟩ := step_produce.mp hstep
      exact ⟨.inr ⟨worker, haction⟩, hs.scheduled, hs.leaves⟩
  | wait worker returnCode =>
      obtain ⟨-, position, -, rfl⟩ := step_wait.mp hstep
      split
      · exact ⟨hs.supplied, hs.scheduled, hs.leaves⟩
      · exact ⟨hs.supplied, hs.scheduled, nofun⟩

theorem scheduling_run {storage : Storage} {all actions : List (Action W)}
    (hs : s.Scheduling storage all) (hsub : ∀ action ∈ actions, action ∈ all)
    (hrun : runFrom step s actions = some t) : t.Scheduling storage all := by
  induction actions generalizing s with
  | nil =>
      obtain rfl : s = t := by simpa using hrun
      exact hs
  | cons action rest ih =>
      obtain ⟨hfirst, hrest⟩ := List.forall_mem_cons.mp hsub
      obtain ⟨next, hstep, hrun⟩ := runFrom_cons_eq_some.mp hrun
      exact ih (scheduling_step hs hfirst hstep) hrest hrun

omit [DecidableEq W] [HashOrder Text] in
theorem scheduling_fresh (appId : ApplicationId) (storage : Storage)
    (actions : List (Action W)) :
    (fresh appId storage : Server W).Scheduling storage actions where
  supplied := .inl rfl
  scheduled := ⟨.inl rfl, rfl, List.nil_prefix⟩
  leaves := fun _ => rfl

/-- In every state of a run the configurations that were sent since the DOE of
the handler was read are those of its schedule, whichever clients have asked for
them and whatever the workers have done meanwhile; and as long as the server
runs, the handler has the rest of it. -/
theorem sentBy_of_run {appId : ApplicationId} {storage : Storage}
    {actions : List (Action W)}
    (hstorages : ∀ supplied, Supplies storage actions supplied →
      ∀ description, (supplied.loadDoe description).Required)
    (hrun : runFrom step (fresh appId storage) actions = some s) :
    Read storage actions s.handler.loaded ∧
      ∃ positions, s.handler.SentBy positions ∧
        (s.terminated = false → s.handler.LeftBy positions) := by
  obtain ⟨-, ⟨hread, hfollows⟩, hleaves⟩ := scheduling_run
    (scheduling_fresh appId storage actions) (fun _ haction => haction) hrun
  have hrequired : s.handler.loaded.Required := by
    rcases hread with hnone | ⟨supplied, description, hsupplied, hloaded⟩
    · rw [hnone]
      exact List.forall_mem_nil _
    · rw [hloaded]
      exact hstorages supplied hsupplied description
  exact ⟨hread, s.handler.places, hfollows.sentBy hrequired,
    fun hrunning => hfollows.leftBy (hleaves hrunning) hrequired⟩

end Runs

section Sampled

open Sample

local instance schedulingOrder : HashOrder Text := HashOrder.stored Text

def explored : Server Unit :=
  (runFrom step (fresh appId (explorable 2)) (welcome () "1".toList)).get
    (by decide +kernel)

theorem required_supplied (supplied : Storage) (hsupplied : Supplies
    (explorable 2) (welcome () "1".toList : List (Action Unit)) supplied)
    (description : BlockModel) : (supplied.loadDoe description).Required := by
  rcases hsupplied with rfl | ⟨worker, hmem⟩
  · intro entry hentry
    obtain rfl := List.mem_singleton.mp hentry
    decide
  · simp [welcome] at hmem

theorem sentBy_of_run_explored :
    Read (explorable 2) (welcome () "1".toList : List (Action Unit))
        explored.handler.loaded ∧
      ∃ positions, explored.handler.SentBy positions ∧
        (explored.terminated = false →
          explored.handler.LeftBy positions) := by
  have hrun : runFrom step (fresh appId (explorable 2))
      (welcome () "1".toList) = some explored := (Option.some_get _).symm
  exact sentBy_of_run required_supplied hrun

end Sampled

end Server

end Margot.Agora
