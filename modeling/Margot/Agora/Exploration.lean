/-
The server on a machine that keeps its storage: the process may crash at any
step and is started again.  `stale` is no part of the source; it records for
which workers the description has been assigned since their observation was
accepted.
-/
import Margot.Agora.Observation
import Margot.Agora.ObservationTable

namespace Margot.Agora

open Heel (BlockModel)

/-- What comes next in `create_observation_table`, and after it. -/
inductive Stage where
  | directories
  | truncation
  /-- The file is open, with the mutex of the storage. -/
  | header
  | done
deriving Repr, DecidableEq

/-- `start_recovering` has loaded a DOE that it has built, and creates the
table before it takes the handler to the exploration. -/
structure Creation (W : Type) where
  worker : W
  next : Handler × Position
  stage : Stage

structure Machine (W : Type) where
  server : Server W
  table : ObservationTable
  creating : Option (Creation W)
  stale : W → Bool

inductive Deed (W : Type) where
  /-- What a worker does between a lock of the mutex and the next unlock. -/
  | turn (worker : W) (input : Input)
  /-- A step of `create_observation_table`, or the end of `start_recovering`
  after it. -/
  | create (worker : W)
  /-- An observation is parsed, and stored if it could be. -/
  | store (worker : W) (durationSec durationNs : Int) (values : Text)
  /-- A running plugin writes its files. -/
  | produce (worker : W) (storage : Storage)
  | wait (worker : W) (returnCode : Int)
  /-- A plugin that a server launched before its crash writes its files. -/
  | outlive (storage : Storage)
  | crash
  /-- The server ends as its workers do, and its storage is erased. -/
  | shutdown

namespace Machine

variable {W : Type} [DecidableEq W]

/-- A server is started where this is in the storage. -/
def start (appId : ApplicationId) (storage : Storage)
    (table : ObservationTable) : Machine W :=
  ⟨.fresh appId storage, table, none, fun _ => false⟩

/-- The storage once it has been erased. -/
def erased : Storage where
  loadDoe := fun _ => .clear
  loadCluster := fun _ => .clear
  loadPrediction := fun _ => .clear
  isModelValid := fun _ => false

/-- The DOE that has just been built is valid, so the table is created. -/
def creates (m : Machine W) (worker : W) : Input → Option ClientId
  | .proceed =>
      match m.server.position worker with
      | .recovering cid .doe [] =>
          if (m.server.handler.loadDoe m.server.storage).isDoeValid then
            some cid
          else none
      | _ => none
  | _ => none

/-- For whom the description has been assigned after the turn. -/
def mark (m : Machine W) (worker : W) : Input → W → Bool
  | .observation _ => Function.update m.stale worker false
  | input =>
      if m.server.handler.describes input then fun _ => true else m.stale

/-- One step of the creation of the table. -/
def createStep (m : Machine W) (c : Creation W) : Machine W :=
  match c.stage with
  | .directories =>
      { m with
        table := m.table.createDirectories
        creating := some { c with stage := .truncation } }
  | .truncation =>
      { m with
        table := m.table.truncate
        creating := some { c with stage := .header } }
  | .header =>
      { m with
        table := m.table.append (getHeader m.server.handler.description)
        creating := some { c with stage := .done } }
  | .done =>
      { m with
        server := m.server.leave c.worker c.next
        creating := none }

/-- The storage of observations is locked while the header is written. -/
def writing (m : Machine W) : Bool :=
  m.creating.any fun c => c.stage = .header

/-- The observation that a worker has to store, as it is parsed. -/
def parsed (m : Machine W) (values : Text) : Option Heel.OperatingPointModel :=
  (parseObservation m.server.handler.description values).bind fun op =>
    op.ops.head?

section Step

variable [HashOrder Text]

/-- A turn of a worker, unless another one is creating the table. -/
def stepTurn (m : Machine W) (worker : W) (input : Input) :
    Option (Machine W) :=
  if m.creating.isSome || m.server.terminated then none
  else
    match m.creates worker input with
    | some cid =>
        if m.server.mayLock worker then
          some { m with creating := some ⟨worker,
            m.server.handler.continueRecovery m.server.storage cid .doe,
            .directories⟩ }
        else none
    | none =>
        (m.server.step (.locked worker input)).map fun server =>
          { m with server := server, stale := m.mark worker input }

def step (m : Machine W) : Deed W → Option (Machine W)
  | .turn worker input => m.stepTurn worker input
  | .create worker =>
      match m.creating with
      | some c =>
          if c.worker = worker && !m.server.terminated then some (m.createStep c)
          else none
      | none => none
  | .store worker durationSec durationNs values =>
      match m.server.position worker, m.parsed values with
      | .observed cid, some op =>
          if m.writing then none
          else (m.server.step (.parse worker true)).map fun server =>
            { m with
              server := server
              table := m.table.append
                (observationEntry cid durationSec durationNs op) }
      | .observed _, none =>
          (m.server.step (.parse worker false)).map fun server =>
            { m with server := server }
      | _, _ => none
  | .produce worker storage =>
      (m.server.step (.produce worker storage)).map fun server =>
        { m with server := server }
  | .wait worker returnCode =>
      (m.server.step (.wait worker returnCode)).map fun server =>
        { m with server := server }
  | .outlive storage =>
    some { m with server := { m.server with storage := storage } }
  | .crash =>
      some (start m.server.handler.appId m.server.storage m.table)
  | .shutdown => some (start m.server.handler.appId erased .noDirectory)

end Step

section Inversion

variable {m t : Machine W} {worker : W}

omit [DecidableEq W] in
theorem creates_eq_some {input : Input} {cid : ClientId} :
    m.creates worker input = some cid ↔
      input = .proceed ∧
      m.server.position worker = .recovering cid .doe [] ∧
      (m.server.handler.loadDoe m.server.storage).isDoeValid = true := by
  constructor
  · intro hcreates
    unfold creates at hcreates
    split at hcreates
    · split at hcreates
      · next hposition =>
          split at hcreates
          · next hvalid =>
              obtain rfl := Option.some.inj hcreates
              exact ⟨rfl, hposition, hvalid⟩
          · contradiction
      · contradiction
    · contradiction
  · rintro ⟨rfl, hposition, hvalid⟩
    simp [creates, hposition, hvalid]

variable [HashOrder Text]

/-- A turn begins the creation of the table, or it is one of the server, which
an exception may end. -/
theorem step_turn {input : Input}
    (hstep : m.step (.turn worker input) = some t) :
    m.creating = none ∧
      ((∃ cid, m.creates worker input = some cid ∧
          m.server.mayLock worker ∧
          t = { m with creating := some ⟨worker,
            m.server.handler.continueRecovery m.server.storage cid .doe,
            .directories⟩ }) ∨
        (m.creates worker input = none ∧ ∃ next,
          m.server.mayLock worker ∧
          m.server.handler.Turn m.server.storage (m.server.position worker)
            input next ∧
          t = { m with
            server := m.server.leave worker next
            stale := m.mark worker input }) ∨
        ∃ g, m.server.mayLock worker ∧
          m.server.handler.Throws m.server.storage (m.server.position worker)
            input g ∧
          t = { m with
            server := (m.server.leave worker (g, .idle)).terminate
            stale := m.mark worker input }) := by
  rw [step, stepTurn] at hstep
  split at hstep
  · contradiction
  · next hfree =>
      simp only [Bool.or_eq_true, not_or, Bool.not_eq_true,
        Option.isSome_eq_false_iff, Option.isNone_iff_eq_none] at hfree
      refine ⟨hfree.1, ?_⟩
      split at hstep
      · next cid hcreates =>
          split at hstep
          · next hlock =>
              exact .inl ⟨cid, hcreates, hlock, (Option.some.inj hstep).symm⟩
          · contradiction
      · next hcreates =>
          obtain ⟨server, hserver, rfl⟩ := Option.map_eq_some_iff.mp hstep
          obtain ⟨-, hlock, ⟨next, hturn, rfl⟩ | ⟨g, hthrows, rfl⟩⟩ :=
            Server.step_locked.mp hserver
          · exact .inr (.inl ⟨hcreates, next, hlock, hturn, rfl⟩)
          · exact .inr (.inr ⟨g, hlock, hthrows, rfl⟩)

theorem step_create (hstep : m.step (.create worker) = some t) :
    ∃ c, m.creating = some c ∧ t = m.createStep c := by
  rw [step] at hstep
  split at hstep
  · next c hcreating =>
      split at hstep
      · exact ⟨c, hcreating, (Option.some.inj hstep).symm⟩
      · contradiction
  · contradiction

/-- An observation is stored as a row, or ignored. -/
theorem step_store {durationSec durationNs : Int} {values : Text}
    (hstep : m.step (.store worker durationSec durationNs values) = some t) :
    ∃ cid, m.server.position worker = .observed cid ∧
      ((∃ op, m.parsed values = some op ∧ m.writing = false ∧
          t = { m with
            server := m.server.move worker (.parsed cid)
            table := m.table.append
              (observationEntry cid durationSec durationNs op) }) ∨
        (m.parsed values = none ∧
          t = { m with server := m.server.move worker .idle })) := by
  rw [step] at hstep
  split at hstep
  · next cid op hposition hparsed =>
      refine ⟨cid, hposition, .inl ⟨op, hparsed, ?_⟩⟩
      split at hstep
      · contradiction
      · next hwriting =>
          obtain ⟨server, hserver, rfl⟩ := Option.map_eq_some_iff.mp hstep
          obtain ⟨-, other, hother, rfl⟩ := Server.step_parse.mp hserver
          rw [hposition] at hother
          obtain rfl := Position.observed.inj hother
          exact ⟨Bool.eq_false_of_not_eq_true hwriting, rfl⟩
  · next cid hposition hparsed =>
      refine ⟨cid, hposition, .inr ⟨hparsed, ?_⟩⟩
      obtain ⟨server, hserver, rfl⟩ := Option.map_eq_some_iff.mp hstep
      obtain ⟨-, other, hother, rfl⟩ := Server.step_parse.mp hserver
      rfl
  · contradiction

end Inversion

/-- While a handler explores there is a table with the header for its
description. -/
def Tabled (m : Machine W) : Prop :=
  m.server.handler.checkState .exploring = true →
    m.table.HasHeader (getHeader m.server.handler.description)

section Condition

variable [HashOrder Text]

/-- An observation that is stored while the handler explores, or before another
session, is a new row of the table with the header. -/
def Recorded (m : Machine W) : Deed W → Prop
  | .store worker durationSec durationNs values =>
      ∀ cid op after, m.server.position worker = .observed cid →
        m.parsed values = some op →
        m.step (.store worker durationSec durationNs values) = some after →
        (m.server.handler.checkState .exploring = true ∨
          m.stale worker = false) →
        ∃ rows, m.table =
            .file (getHeader m.server.handler.description ++ rows) ∧
          after.table =
            .file (getHeader m.server.handler.description ++ (rows ++
              observationEntry cid durationSec durationNs op))
  | _ => True

omit [DecidableEq W] [HashOrder Text] in
/-- A DOE that `start_recovering` finds has its table, and so has one with which
an observation of another session restarts the exploration. -/
def Founded (m : Machine W) : Deed W → Prop
  | .turn worker input =>
      (∀ g, m.server.handler.recoveredDoe m.server.storage
          (m.server.position worker) input = some g → g.isDoeValid = true →
        m.table.HasHeader (getHeader g.description)) ∧
      ∀ phase g, m.server.position worker = .awaiting phase [] →
        input = .proceed → m.stale worker = true →
        m.server.handler.restartedDoe m.server.storage phase = some g →
        g.isDoeValid = true →
        m.table.HasHeader (getHeader m.server.handler.description)
  | _ => True

end Condition

/-- How far the table has been created. -/
def Reached (table : ObservationTable) (header : Text) : Stage → Prop
  | .directories => True
  | .truncation => table ≠ .noDirectory
  | .header => table = .file []
  | .done => table.HasHeader header

/-- What a creation of the table that is in progress relies on. -/
structure Creating (m : Machine W) (c : Creation W) : Prop where
  position : ∃ cid, m.server.position c.worker = .recovering cid .doe []
  description : c.next.1.description = m.server.handler.description
  apart : c.next.1.Apart
  answering : ∃ cid, c.next.2 = .answering cid
  reached : Reached m.table (getHeader m.server.handler.description) c.stage

/-- The invariant.  The table is there for every worker whose observation was
accepted for the present description, and during a recovery there is none. -/
structure Sound (m : Machine W) : Prop where
  holding : m.server.Holding
  apart : m.server.handler.Apart
  tabled : m.Tabled
  observing : ∀ worker, (m.server.position worker).observing = true →
    m.stale worker = false →
    m.table.HasHeader (getHeader m.server.handler.description)
  recovering : ∀ worker, (m.server.position worker).inRecovery = true →
    m.server.handler.checkState .exploring = false ∧
      ∀ other, (m.server.position other).observing = true →
        m.stale other = true
  creating : ∀ c, m.creating = some c → m.Creating c

section Keeping

variable {m t : Machine W}

omit [DecidableEq W] in
theorem sound_start (appId : ApplicationId) (storage : Storage)
    (table : ObservationTable) :
    (start appId storage table : Machine W).Sound where
  holding := fun _ => nofun
  apart := fun _ => rfl
  tabled := by
    intro hexploring
    exact absurd hexploring (by simp [start, Server.fresh, Handler.new,
      Handler.checkState])
  observing := fun _ => nofun
  recovering := fun _ => nofun
  creating := nofun

/-- Rows come after the header. -/
theorem Reached.append {table : ObservationTable} {header : Text}
    {stage : Stage} (hreached : Reached table header stage)
    (hstage : stage ≠ .header) (text : Text) :
    Reached (table.append text) header stage := by
  cases stage with
  | directories => trivial
  | truncation =>
      cases table with
      | noDirectory => exact absurd rfl hreached
      | noFile => exact nofun
      | file content => exact nofun
  | header => contradiction
  | done => exact ObservationTable.HasHeader.append hreached text

omit [DecidableEq W] in
theorem locked_of_inRecovery {position : Position}
    (hrecovers : position.inRecovery = true) : position.locked = true := by
  cases position with
  | recovering cid phase plugins => rfl
  | idle => contradiction
  | observed cid => contradiction
  | parsed cid => contradiction
  | awaiting phase plugins => contradiction
  | restarting clients => contradiction
  | answering cid => contradiction

omit [DecidableEq W] in
theorem not_observing_of_inRecovery {position : Position}
    (hrecovers : position.inRecovery = true) : position.observing = false := by
  cases position with
  | recovering cid phase plugins => rfl
  | idle => rfl
  | observed cid => contradiction
  | parsed cid => contradiction
  | awaiting phase plugins => contradiction
  | restarting clients => contradiction
  | answering cid => rfl

/-- Who is not marked has the same description before and after the turn. -/
theorem mark_eq_false {worker other : W} {input : Input}
    (hmark : m.mark worker input other = false) :
    m.server.handler.describes input = false ∧
      (m.stale other = false ∨ ∃ cid, input = .observation cid ∧
        other = worker) := by
  cases input with
  | observation cid =>
      refine ⟨rfl, ?_⟩
      by_cases hother : other = worker
      · exact .inr ⟨cid, rfl, hother⟩
      · rw [mark, Function.update_of_ne hother] at hmark
        exact .inl hmark
  | welcome cid app =>
      rw [mark] at hmark
      · split at hmark
        · contradiction
        · next hsame => exact ⟨Bool.eq_false_of_not_eq_true hsame, .inl hmark⟩
      · nofun
  | bye cid => exact ⟨rfl, .inl hmark⟩
  | proceed => exact ⟨rfl, .inl hmark⟩

omit [DecidableEq W] in
/-- Who recovers holds the mutex. -/
theorem Sound.not_inRecovery (hm : m.Sound) {worker other : W}
    (hlock : m.server.mayLock worker) (hother : other ≠ worker) :
    (m.server.position other).inRecovery ≠ true := by
  intro hrecovers
  have hfree := hm.holding.not_locked hlock hother
  rw [locked_of_inRecovery hrecovers] at hfree
  contradiction

section Turn

variable [HashOrder Text] {worker : W} {input : Input}
  {next : Handler × Position}

omit [DecidableEq W] in
theorem tabled_turn (hm : m.Sound) (hfounded : m.Founded (.turn worker input))
    (hcreates : m.creates worker input = none)
    (hturn : m.server.handler.Turn m.server.storage
      (m.server.position worker) input next)
    (hexploring : next.1.checkState .exploring = true) :
    m.table.HasHeader (getHeader next.1.description) := by
  rcases Handler.turn_exploring hturn hexploring with hbefore |
    ⟨g, hg, hvalid⟩ | ⟨cid, hposition, hinput, hvalid⟩ |
    ⟨phase, g, hposition, hinput, hg, hvalid⟩
  · have hsame : m.server.handler.describes input = false := by
      by_contra hdescribes
      rw [Bool.not_eq_false] at hdescribes
      have hclueless : m.server.handler.checkState .clueless = true := by
        unfold Handler.describes at hdescribes
        split at hdescribes
        · rw [Bool.and_eq_true] at hdescribes
          exact hdescribes.1
        · contradiction
      rw [hm.apart hclueless] at hbefore
      contradiction
    rw [Handler.turn_description hturn hsame]
    exact hm.tabled hbefore
  · rw [(Handler.turn_recoveredDoe hturn hg hvalid).2]
    exact hfounded.1 g hg hvalid
  · rw [creates_eq_some.mpr ⟨hinput, hposition, hvalid⟩] at hcreates
    contradiction
  · have hsame : m.server.handler.describes input = false := by
      rw [hinput]
      rfl
    rw [Handler.turn_description hturn hsame]
    cases hstale : m.stale worker with
    | true => exact hfounded.2 phase g hposition hinput hstale hg hvalid
    | false => exact hm.observing worker (by rw [hposition]; rfl) hstale

theorem sound_turn (hm : m.Sound) (hfounded : m.Founded (.turn worker input))
    (hfree : m.creating = none) (hcreates : m.creates worker input = none)
    (hlock : m.server.mayLock worker)
    (hturn : m.server.handler.Turn m.server.storage
      (m.server.position worker) input next) :
    Sound { m with
      server := m.server.leave worker next
      stale := m.mark worker input } where
  holding := hm.holding.leave hlock next
  apart := Handler.turn_apart hm.apart hturn
  tabled := by
    intro hexploring
    have htabled := tabled_turn hm hfounded hcreates hturn hexploring
    exact htabled
  observing := by
    intro other hobserving hmark
    obtain ⟨hsame, hstale⟩ := mark_eq_false hmark
    change m.table.HasHeader (getHeader next.1.description)
    rw [Handler.turn_description hturn hsame]
    simp only [Server.leave, Server.position_move] at hobserving
    by_cases hother : other = worker
    · subst hother
      rw [Function.update_self] at hobserving
      rcases Handler.turn_observing hturn hobserving with
        ⟨hbefore, hinput⟩ | ⟨hexploring, -⟩
      · refine hm.observing other hbefore (hstale.resolve_right ?_)
        rintro ⟨cid, hobservation, -⟩
        rw [hinput] at hobservation
        contradiction
      · exact hm.tabled hexploring
    · rw [Function.update_of_ne hother] at hobserving
      refine hm.observing other hobserving (hstale.resolve_right ?_)
      rintro ⟨-, -, hself⟩
      exact hother hself
  recovering := by
    intro other hrecovers
    simp only [Server.leave, Server.position_move] at hrecovers ⊢
    by_cases hother : other = worker
    · subst hother
      rw [Function.update_self] at hrecovers
      obtain ⟨hexploring, hbefore⟩ := Handler.turn_inRecovery hturn hrecovers
      refine ⟨hexploring, fun third hobserving => ?_⟩
      by_contra hmark
      rw [Bool.not_eq_true] at hmark
      obtain ⟨hsame, hstale⟩ := mark_eq_false hmark
      have hrecovered : (m.server.position other).inRecovery = true := by
        refine hbefore.resolve_right fun hdescribes => ?_
        rw [hsame] at hdescribes
        contradiction
      by_cases hthird : third = other
      · subst hthird
        rw [Function.update_self,
          not_observing_of_inRecovery hrecovers] at hobserving
        contradiction
      · rw [Function.update_of_ne hthird] at hobserving
        have hbefore := (hm.recovering other hrecovered).2 third hobserving
        rcases hstale with hstale | ⟨-, -, hself⟩
        · rw [hstale] at hbefore
          contradiction
        · exact hthird hself
    · rw [Function.update_of_ne hother] at hrecovers
      exact absurd hrecovers (hm.not_inRecovery hlock hother)
  creating := by
    intro c hc
    have hnone : m.creating = some c := hc
    rw [hfree] at hnone
    contradiction

/-- An exception takes the worker out of its method, and the handler explores
only if it did before. -/
theorem sound_throw {g : Handler} (hm : m.Sound) (hfree : m.creating = none)
    (hlock : m.server.mayLock worker)
    (hthrows : m.server.handler.Throws m.server.storage
      (m.server.position worker) input g) :
    Sound { m with
      server := (m.server.leave worker (g, .idle)).terminate
      stale := m.mark worker input } := by
  have hfails := Handler.fails_of_throws hthrows
  refine ⟨(hm.holding.leave hlock (g, .idle)).terminate,
    hfails.apart hm.apart, ?_, ?_, ?_, ?_⟩
  · intro hexploring
    change m.table.HasHeader (getHeader g.description)
    rw [hfails.description]
    rcases hfails.status with hsame | ⟨hstatus, -⟩
    · apply hm.tabled
      rw [Handler.checkState, ← hsame]
      exact hexploring
    · exact absurd (of_decide_eq_true hexploring) hstatus
  · intro other hobserving hmark
    obtain ⟨-, hstale⟩ := mark_eq_false hmark
    change m.table.HasHeader (getHeader g.description)
    rw [hfails.description]
    simp only [Server.terminate, Server.leave, Server.position_move]
      at hobserving
    by_cases hother : other = worker
    · subst hother
      rw [Function.update_self] at hobserving
      contradiction
    · rw [Function.update_of_ne hother] at hobserving
      refine hm.observing other hobserving (hstale.resolve_right ?_)
      rintro ⟨-, -, hself⟩
      exact hother hself
  · intro other hrecovers
    simp only [Server.terminate, Server.leave, Server.position_move]
      at hrecovers
    by_cases hother : other = worker
    · subst hother
      rw [Function.update_self] at hrecovers
      contradiction
    · rw [Function.update_of_ne hother] at hrecovers
      exact absurd hrecovers (hm.not_inRecovery hlock hother)
  · intro c hc
    have hnone : m.creating = some c := hc
    rw [hfree] at hnone
    contradiction

omit [DecidableEq W] [HashOrder Text] in
/-- The creation begins. -/
theorem sound_creates (hm : m.Sound) {cid : ClientId}
    (hcreates : m.creates worker input = some cid) :
    Sound { m with creating := some ⟨worker,
      m.server.handler.continueRecovery m.server.storage cid .doe,
      .directories⟩ } where
  holding := hm.holding
  apart := hm.apart
  tabled := hm.tabled
  observing := hm.observing
  recovering := hm.recovering
  creating := by
    intro c hc
    obtain rfl := Option.some.inj hc
    obtain ⟨-, hposition, hvalid⟩ := creates_eq_some.mp hcreates
    refine ⟨⟨cid, hposition⟩, Handler.continueRecovery_description _ _ _ _,
      (Handler.recovers_continueRecovery _ _ _ _).apart, ⟨cid, ?_⟩, trivial⟩
    exact congrArg Prod.snd (if_pos hvalid)

end Turn

section Create

variable {c : Creation W}

omit [DecidableEq W] in
/-- During the creation nothing is explored, and nobody relies on the table. -/
theorem Sound.with_table (hm : m.Sound) (hc : m.creating = some c)
    {table : ObservationTable} {stage : Stage}
    (hreached : Reached table (getHeader m.server.handler.description) stage) :
    Sound { m with
      table := table
      creating := some { c with stage := stage } } := by
  have hcreating := hm.creating c hc
  obtain ⟨cid, hposition⟩ := hcreating.position
  obtain ⟨hexploring, hstale⟩ :=
    hm.recovering c.worker (by rw [hposition]; rfl)
  refine ⟨hm.holding, hm.apart, ?_, ?_, hm.recovering, ?_⟩
  · intro hexplored
    have hsame : m.server.handler.checkState .exploring = true := hexplored
    rw [hexploring] at hsame
    contradiction
  · intro worker hobserving hfresh
    have hmarked := hstale worker hobserving
    rw [show m.stale worker = false from hfresh] at hmarked
    contradiction
  · intro other hother
    obtain rfl := Option.some.inj hother
    exact ⟨hcreating.position, hcreating.description, hcreating.apart,
      hcreating.answering, hreached⟩

/-- The end of the recovery, with the table that has been created. -/
theorem Sound.explore (hm : m.Sound) (hc : m.creating = some c)
    (hheader : m.table.HasHeader (getHeader m.server.handler.description)) :
    Sound { m with
      server := m.server.leave c.worker c.next
      creating := none } := by
  have hcreating := hm.creating c hc
  obtain ⟨cid, hposition⟩ := hcreating.position
  obtain ⟨client, hanswering⟩ := hcreating.answering
  have hlock : m.server.mayLock c.worker :=
    .inr (hm.holding c.worker (by rw [hposition]; rfl))
  have hafter : m.table.HasHeader (getHeader c.next.1.description) := by
    rw [hcreating.description]
    exact hheader
  refine ⟨hm.holding.leave hlock c.next, hcreating.apart, fun _ => hafter,
    fun _ _ _ => hafter, ?_, nofun⟩
  intro other hrecovers
  simp only [Server.leave, Server.position_move] at hrecovers
  by_cases hother : other = c.worker
  · subst hother
    rw [Function.update_self, hanswering] at hrecovers
    contradiction
  · rw [Function.update_of_ne hother] at hrecovers
    exact absurd hrecovers (hm.not_inRecovery hlock hother)

theorem sound_createStep (hm : m.Sound) (hc : m.creating = some c) :
    (m.createStep c).Sound := by
  have hreached := (hm.creating c hc).reached
  rw [createStep]
  split
  · apply hm.with_table hc
    cases m.table with
    | noDirectory => exact nofun
    | noFile => exact nofun
    | file content => exact nofun
  · next hstage =>
      apply hm.with_table hc
      rw [hstage] at hreached
      cases htable : m.table with
      | noDirectory => exact absurd htable hreached
      | noFile => rfl
      | file content => rfl
  · next hstage =>
      apply hm.with_table hc
      rw [hstage] at hreached
      rw [show m.table = .file [] from hreached]
      exact ⟨[], (congrArg ObservationTable.file (List.append_nil _)).symm⟩
  · next hstage =>
      apply hm.explore hc
      rw [hstage] at hreached
      exact hreached

end Create

omit [DecidableEq W] in
/-- The handler, its mutex and its workers decide. -/
theorem Sound.of_same (hm : m.Sound) {server : Server W}
    (hhandler : server.handler = m.server.handler)
    (hmutex : server.appMutex = m.server.appMutex)
    (hposition : server.position = m.server.position) :
    Sound { m with server := server } := by
  obtain ⟨handler, storage, appMutex, position, terminated⟩ := server
  subst hhandler hmutex hposition
  refine ⟨hm.holding, hm.apart, hm.tabled, hm.observing, hm.recovering, ?_⟩
  intro c hc
  obtain ⟨hworker, hdescription, hapart, hanswering, hreached⟩ :=
    hm.creating c hc
  exact ⟨hworker, hdescription, hapart, hanswering, hreached⟩

section Move

variable {worker : W} {position : Position}

/-- A worker goes on to a position at which it asks for no more. -/
theorem Sound.move (hm : m.Sound) {table : ObservationTable}
    (hholding : (m.server.move worker position).Holding)
    (hobserving : position.observing = true →
      (m.server.position worker).observing = true)
    (hrecovers : position.inRecovery = true →
      (m.server.position worker).inRecovery = true)
    (hother : ∀ cid, m.server.position worker ≠ .recovering cid .doe [])
    (htable : ∀ header, m.table.HasHeader header → table.HasHeader header)
    (hreached : ∀ c header, m.creating = some c →
      Reached m.table header c.stage → Reached table header c.stage) :
    Sound { m with
      server := m.server.move worker position
      table := table } := by
  have hbefore : ∀ third,
      (((m.server.move worker position).position third).observing = true →
        (m.server.position third).observing = true) ∧
      (((m.server.move worker position).position third).inRecovery = true →
        (m.server.position third).inRecovery = true) := by
    intro third
    rw [Server.position_move]
    by_cases hthird : third = worker
    · subst hthird
      rw [Function.update_self]
      exact ⟨hobserving, hrecovers⟩
    · rw [Function.update_of_ne hthird]
      exact ⟨id, id⟩
  refine ⟨hholding, hm.apart, fun hexploring => htable _ (hm.tabled hexploring),
    ?_, ?_, ?_⟩
  · intro third hthird hstale
    exact htable _ (hm.observing third ((hbefore third).1 hthird) hstale)
  · intro third hthird
    obtain ⟨hexploring, hstale⟩ :=
      hm.recovering third ((hbefore third).2 hthird)
    exact ⟨hexploring, fun fourth hfourth =>
      hstale fourth ((hbefore fourth).1 hfourth)⟩
  · intro c hc
    have hcreating := hm.creating c hc
    obtain ⟨cid, hposition⟩ := hcreating.position
    have hne : c.worker ≠ worker := by
      rintro rfl
      exact hother cid hposition
    refine ⟨⟨cid, ?_⟩, hcreating.description, hcreating.apart,
      hcreating.answering, hreached c _ hc hcreating.reached⟩
    rw [Server.position_move, Function.update_of_ne hne]
    exact hposition

end Move

end Keeping

section Runs

variable [HashOrder Text] {m t : Machine W} {deed : Deed W}

theorem sound_step (hm : m.Sound) (hfounded : m.Founded deed)
    (hstep : m.step deed = some t) : t.Sound := by
  cases deed with
  | turn worker input =>
      obtain ⟨hfree, hturn⟩ := step_turn hstep
      rcases hturn with ⟨cid, hcreates, -, rfl⟩ |
        ⟨hcreates, next, hlock, hturn, rfl⟩ | ⟨g, hlock, hthrows, rfl⟩
      · exact sound_creates hm hcreates
      · exact sound_turn hm hfounded hfree hcreates hlock hturn
      · exact sound_throw hm hfree hlock hthrows
  | create worker =>
      obtain ⟨c, hc, rfl⟩ := step_create hstep
      exact sound_createStep hm hc
  | store worker durationSec durationNs values =>
      obtain ⟨cid, hposition, hstored⟩ := step_store hstep
      have hother : ∀ cid,
          m.server.position worker ≠ .recovering cid .doe [] := by
        intro cid
        rw [hposition]
        nofun
      rcases hstored with ⟨op, -, hwriting, rfl⟩ | ⟨-, rfl⟩
      · apply hm.move
        · exact hm.holding.move (by rw [hposition]; rfl)
        · exact fun _ => by rw [hposition]; rfl
        · nofun
        · exact hother
        · exact fun _ hheader => hheader.append _
        · intro c header hc hreached
          refine hreached.append (fun hstage => ?_) _
          simp [writing, hc, hstage] at hwriting
      · apply hm.move
        · exact hm.holding.move (by rw [hposition]; rfl)
        · nofun
        · nofun
        · exact hother
        · exact fun _ => id
        · exact fun _ _ _ => id
  | produce worker storage =>
      obtain ⟨server, hserver, rfl⟩ := Option.map_eq_some_iff.mp hstep
      obtain ⟨-, -, rfl⟩ := Server.step_produce.mp hserver
      exact hm.of_same rfl rfl rfl
  | wait worker returnCode =>
      obtain ⟨server, hserver, rfl⟩ := Option.map_eq_some_iff.mp hstep
      obtain ⟨-, position, hwaited, rfl⟩ := Server.step_wait.mp hserver
      have hmove : Sound { m with server := m.server.move worker position } := by
        apply hm.move _ _ _ _ (fun _ => id) fun _ _ _ => id
        · exact hm.holding.move (Position.locked_of_waited hwaited)
        all_goals
          rcases Position.waited_cases hwaited with
            ⟨phase, plugin, plugins, hbefore, rfl⟩ |
            ⟨cid, phase, plugin, plugins, hbefore, rfl⟩
        all_goals rw [hbefore]
        · exact fun _ => rfl
        · nofun
        · nofun
        · exact fun _ => rfl
        · nofun
        · nofun
      split
      · exact hmove
      · exact hm.of_same rfl rfl rfl
  | outlive storage =>
      obtain rfl := Option.some.inj hstep
      exact hm.of_same rfl rfl rfl
  | crash =>
      obtain rfl := Option.some.inj hstep
      exact sound_start _ _ _
  | shutdown =>
      obtain rfl := Option.some.inj hstep
      exact sound_start _ _ _

theorem recorded_of_sound (hm : m.Sound) : m.Recorded deed := by
  cases deed with
  | store worker durationSec durationNs values =>
      intro cid op after hposition hparsed hstep haccepted
      have hheader : m.table.HasHeader
          (getHeader m.server.handler.description) := by
        rcases haccepted with hexploring | hstale
        · exact hm.tabled hexploring
        · exact hm.observing worker (by rw [hposition]; rfl) hstale
      obtain ⟨rows, htable⟩ := hheader
      refine ⟨rows, htable, ?_⟩
      obtain ⟨other, hother, hstored⟩ := step_store hstep
      rw [hposition] at hother
      obtain rfl := Position.observed.inj hother
      rcases hstored with ⟨stored, hsame, -, rfl⟩ | ⟨hnone, -⟩
      · rw [hparsed] at hsame
        obtain rfl := Option.some.inj hsame
        simp only [htable, ObservationTable.append, List.append_assoc]
      · rw [hparsed] at hnone
        contradiction
  | turn worker input => trivial
  | create worker => trivial
  | produce worker storage => trivial
  | wait worker returnCode => trivial
  | outlive storage => trivial
  | crash => trivial
  | shutdown => trivial

theorem founded_of_tabled (hstep : m.step deed = some t) (ht : t.Tabled) :
    m.Founded deed := by
  cases deed with
  | turn worker input =>
      obtain ⟨-, hturn⟩ := step_turn hstep
      rcases hturn with ⟨cid, hcreates, -, rfl⟩ |
        ⟨-, next, -, hturn, rfl⟩ | ⟨thrown, -, hthrows, rfl⟩
      · obtain ⟨rfl, hposition, -⟩ := creates_eq_some.mp hcreates
        constructor
        · intro g hg
          rw [hposition] at hg
          contradiction
        · intro phase g hother
          rw [hposition] at hother
          contradiction
      · constructor
        · intro g hg hvalid
          obtain ⟨hexploring, hdescription⟩ :=
            Handler.turn_recoveredDoe hturn hg hvalid
          rw [← hdescription]
          exact ht hexploring
        · rintro phase g hposition rfl - hg hvalid
          rw [hposition] at hturn
          cases hturn with
          | awaited _ hnext =>
              obtain ⟨restarted, hrestarted, hexploring⟩ :=
                Handler.restarts_exploring hg hvalid
              obtain rfl := Except.ok.inj (hnext.symm.trans hrestarted)
              rw [← Handler.continueObservation_description hnext]
              exact ht hexploring
      · constructor
        · intro g hg
          rw [hthrows.recoveredDoe_eq] at hg
          contradiction
        · rintro phase g hposition rfl - hg hvalid
          rw [hposition] at hthrows
          cases hthrows with
          | awaited _ hthrown =>
              obtain ⟨restarted, hrestarted, -⟩ :=
                Handler.restarts_exploring hg hvalid
              cases hthrown.symm.trans hrestarted
  | create worker => trivial
  | store worker durationSec durationNs values => trivial
  | produce worker storage => trivial
  | wait worker returnCode => trivial
  | outlive storage => trivial
  | crash => trivial
  | shutdown => trivial

/-- A handler that explores always has the table with its header, to which every
observation is added, exactly when every DOE that is found at the beginning of a
session has its table, and so has one with which an observation of another
session restarts the exploration. -/
theorem tabled_allReached_iff (appId : ApplicationId) (storage : Storage)
    (table : ObservationTable) (deeds : List (Deed W)) :
    (AllReached step Tabled (start appId storage table) deeds ∧
        AllSteps step Recorded (start appId storage table) deeds) ↔
      AllSteps step Founded (start appId storage table) deeds := by
  have hiff : AllReached step Tabled (start appId storage table) deeds ↔
      AllSteps step Founded (start appId storage table) deeds :=
    allReached_iff_allSteps Sound (fun _ _ _ => sound_step)
      (fun _ hm => hm.tabled) (fun _ _ _ _ => founded_of_tabled)
      (sound_start appId storage table)
  rw [hiff]
  refine ⟨And.left, fun hfounded => ⟨hfounded, ?_⟩⟩
  intro pre deed before after hpre hrun _
  apply recorded_of_sound
  exact runFrom_invariant (fun _ _ _ => sound_step)
    (sound_start appId storage table)
    (hfounded.restrict ((List.prefix_append _ _).trans hpre)) hrun

end Runs

section Interrupted

open Sample

local instance interruptedOrder : HashOrder Text := HashOrder.stored Text

/-- The server crashes while its plugin builds the DOE, and is started again. -/
def interrupting : List (Deed Bool) :=
  [.turn false (.welcome client (some (app "1".toList))),
    .produce false (explorable 1), .crash,
    .turn false (.welcome client (some (app "1".toList)))]

def interrupted : Machine Bool :=
  (runFrom step (start appId emptyStorage .noDirectory) interrupting).get
    (by decide +kernel)

theorem not_tabled_interrupted :
    ¬ ∀ [HashOrder Text] (appId : ApplicationId) (storage : Storage)
      (table : ObservationTable) (deeds : List (Deed Bool)),
      AllReached step Tabled (start appId storage table) deeds := by
  intro hall
  have htabled := hall appId emptyStorage .noDirectory interrupting
    interrupting interrupted List.prefix_rfl (Option.some_get _).symm
  obtain ⟨rows, hrows⟩ := htabled (by decide +kernel)
  have hnone : interrupted.table = .noDirectory := by decide +kernel
  rw [hnone] at hrows
  contradiction

end Interrupted

end Machine

end Margot.Agora
