import ZcashMiningPool.PoolCore.Retarget

/-!
# Announced and enforced targets

The validator enforces a new target first and announces it afterwards, through the session's
channel; a message that finds the channel full is dropped.  The machine has the validator, the
messages it still has to send for the current event, the channel, and the clock.

* `TargetLink`, `TargetLink.Move`, `TargetLink.step` — the parties and their moves.
* `Announced` — the last target that went into the channel is enforced or freshly replaced.
* `Timely` — no target is dropped or late, and no worker connects at another target.

Principal results:

* `announced_always` — in a timely run the last announced target is always honoured.
-/

set_option autoImplicit false

namespace ZcashMiningPool

open Machine

/-- `mpsc::channel::<ServerMessage>(64)`. -/
def sessionChannelCapacity : ℕ := 64

/-- The session of a miner between validator and socket. -/
structure TargetLink where
  sessionId : String
  validator : ShareValidator
  now : ℚ
  /-- When the current event was handled. -/
  handledAt : ℚ
  /-- What the validator still has to send for it. -/
  outbox : List ServerMessage
  channel : List ServerMessage
  /-- The server still has the sender of the channel. -/
  isOpen : Bool
  /-- The last target that went into the channel. -/
  lastTarget : Option Bytes32

/-- An event of the session, with what the rest of the pool made of the validator before it. -/
structure Delivery where
  event : StratumEvent
  unix : ℕ
  answers : Answers
  world : ShareValidator → ShareValidator

namespace TargetLink

inductive Move where
  /-- The validator takes an event from its queue. -/
  | handle (d : Delivery)
  /-- It passes the next message to the session. -/
  | send
  /-- The session writes a message to its socket. -/
  | drain
  /-- The session ends or is ended. -/
  | close
  | wait (dt : ℚ)

variable (prims : Primitives)

/-- A session that was just accepted. -/
def accept (sessionId : String) (v : ShareValidator) (now : ℚ) : TargetLink where
  sessionId := sessionId
  validator := v.setSession sessionId none
  now := now
  handledAt := now
  outbox := []
  channel := []
  isOpen := true
  lastTarget := none

/-- Only the session's own record is as the validator left it. -/
def meet (s : TargetLink) (world : ShareValidator → ShareValidator) : ShareValidator :=
  (world s.validator).setSession s.sessionId (s.validator.sessionDifficulty s.sessionId)

def outcome (s : TargetLink) (d : Delivery) : EventOutcome :=
  (s.meet d.world).handleEvent prims ⟨s.now, d.unix⟩ d.answers d.event

/-- There is a sender, and a slot. -/
def Room (s : TargetLink) : Prop :=
  s.isOpen = true ∧ s.channel.length < sessionChannelCapacity

instance (s : TargetLink) : Decidable s.Room := by
  unfold Room
  infer_instance

/-- The last target after a message went into the channel. -/
def noteTarget (last : Option Bytes32) : ServerMessage → Option Bytes32
  | .setTarget hex => (parseTarget hex).toOption
  | _ => last

/-- `send_to_session`: `try_send`, which never waits. -/
def sendToSession (s : TargetLink) (m : ServerMessage) : TargetLink :=
  if s.Room then { s with channel := s.channel ++ [m], lastTarget := noteTarget s.lastTarget m }
  else s

/-- The session an event belongs to. -/
def sessionOf : StratumEvent → String
  | .shareSubmitted _ sub => sub.sessionId
  | .workerConnected sessionId _ _ _ => sessionId
  | .sessionDisconnected sessionId => sessionId
  | .targetSuggested sessionId _ => sessionId

/-- The validator handles one event after the other. -/
def step (s : TargetLink) : Move → TargetLink
  | .handle d =>
    if s.outbox = [] ∧ sessionOf d.event = s.sessionId then
      { s with
        validator := (s.outcome prims d).validator
        handledAt := s.now
        outbox := (s.outcome prims d).sent
        isOpen := s.isOpen && !(s.outcome prims d).disconnected }
    else s
  | .send =>
    match s.outbox with
    | [] => s
    | m :: outbox => { s with outbox := outbox }.sendToSession m
  | .drain => { s with channel := s.channel.tail }
  | .close => { s with isOpen := false }
  | .wait dt => { s with now := s.now + max dt 0 }

/-- The last announced target is enforced, or it was replaced at most 60 seconds ago. -/
def Announced (s : TargetLink) : Prop :=
  ∀ sd t, s.validator.sessionDifficulty s.sessionId = some sd → s.lastTarget = some t →
    t = sd.target ∨ ∃ gt ∈ sd.recentTargets, gt.target = t ∧ s.now - gt.setAt ≤ 60

/-- No target is dropped, none waits for more than 60 seconds to be sent, and a worker connects
    only at the target that was announced last, if any was. -/
def Timely (s : TargetLink) : Move → Prop
  | .handle d => ∀ sessionId workerName password localPort,
      d.event = .workerConnected sessionId workerName password localPort →
      ∀ t, s.lastTarget = some t →
        parseTarget (difficultyToTargetHex ((s.meet d.world).initialDifficulty password localPort))
          = .ok t
  | .send => ∀ hex outbox, s.outbox = .setTarget hex :: outbox → s.Room
  | .wait dt => targetsIn s.outbox ≠ [] → s.now + max dt 0 - s.handledAt ≤ 60
  | _ => True

/-! ## The invariant -/

/-- Either everything is announced, or the one target on its way is the enforced one and the last
    announced one was replaced by the current event. -/
structure InFlight (s : TargetLink) : Prop where
  none : s.validator.sessionDifficulty s.sessionId = none → targetsIn s.outbox = []
  some : ∀ sd, s.validator.sessionDifficulty s.sessionId = some sd →
    (targetsIn s.outbox = [] ∧ ∀ t, s.lastTarget = some t → t = sd.target) ∨
      ∃ hex, targetsIn s.outbox = [hex] ∧ parseTarget hex = .ok sd.target ∧
        s.now - s.handledAt ≤ 60 ∧ ∀ t, s.lastTarget = some t →
          t = sd.target ∨ ∃ gt ∈ sd.recentTargets, gt.target = t ∧ gt.setAt = s.handledAt

theorem InFlight.announced {s : TargetLink} (h : InFlight s) : Announced s := by
  intro sd t hsd ht
  rcases h.some sd hsd with ⟨-, hlast⟩ | ⟨hex, -, -, hfresh, hlast⟩
  · exact .inl (hlast t ht)
  · rcases hlast t ht with heq | ⟨gt, hgt, heq, hset⟩
    · exact .inl heq
    · exact .inr ⟨gt, hgt, heq, by rw [hset]; exact hfresh⟩

theorem inFlight_accept (sessionId : String) (v : ShareValidator) (now : ℚ) :
    InFlight (accept sessionId v now) :=
  ⟨fun _ => rfl, fun sd hsd => .inl ⟨rfl, fun t ht => by cases ht⟩⟩

variable {prims}

theorem meet_session (s : TargetLink) (world : ShareValidator → ShareValidator) :
    (s.meet world).sessionDifficulty s.sessionId = s.validator.sessionDifficulty s.sessionId :=
  Function.update_self _ _ _

/-- Between two events every target is announced. -/
theorem InFlight.settled {s : TargetLink} (h : InFlight s) (hout : s.outbox = [])
    {sd : SessionDifficulty} (hsd : s.validator.sessionDifficulty s.sessionId = Option.some sd)
    {t : Bytes32} (ht : s.lastTarget = Option.some t) : t = sd.target := by
  rcases h.some sd hsd with ⟨-, hlast⟩ | ⟨hex, hone, -⟩
  · exact hlast t ht
  · rw [hout] at hone
    cases hone

/-- The state after an event that left `v'` and the messages `sent`. -/
def handled (s : TargetLink) (v' : ShareValidator) (sent : List ServerMessage) (isOpen : Bool) :
    TargetLink :=
  { s with validator := v', handledAt := s.now, outbox := sent, isOpen := isOpen }

/-- After a retarget the new target is on its way, and the old one is in the grace window. -/
theorem inFlight_effect {s : TargetLink} (h : InFlight s) (hout : s.outbox = [])
    {v v' : ShareValidator} {sent : List ServerMessage} (isOpen : Bool)
    (hrecord : v.sessionDifficulty s.sessionId = s.validator.sessionDifficulty s.sessionId)
    (heffect : ShareValidator.Effect s.now s.sessionId (targetsIn sent) v v') :
    InFlight (s.handled v' sent isOpen) := by
  constructor
  · intro hnone
    have hnone' : v'.sessionDifficulty s.sessionId = none := hnone
    cases hsd : v.sessionDifficulty s.sessionId with
    | none => exact (heffect.absent hsd).1
    | some sd =>
      obtain ⟨sd', hsd', -⟩ := heffect.present sd hsd
      rw [hnone'] at hsd'
      cases hsd'
  · intro sd' hsd'
    have hsome : v'.sessionDifficulty s.sessionId = some sd' := hsd'
    cases hsd : v.sessionDifficulty s.sessionId with
    | none =>
      rw [(heffect.absent hsd).2] at hsome
      cases hsome
    | some sd =>
      obtain ⟨sd'', hsd'', hcases⟩ := heffect.present sd hsd
      rw [hsome] at hsd''
      cases hsd''
      have hold : ∀ t, s.lastTarget = some t → t = sd.target :=
        fun t ht => h.settled hout (hrecord ▸ hsd) ht
      rcases hcases with ⟨hnil, hsame⟩ | ⟨hex, hone, hnew⟩
      · exact .inl ⟨hnil, fun t ht => (hold t ht).trans hsame.target.symm⟩
      · refine .inr ⟨hex, hone, hnew.target, ?_, ?_⟩
        · change s.now - s.now ≤ 60
          rw [sub_self]
          norm_num
        · intro t ht
          have hpos : 0 < graceTargetHistory := by decide
          refine .inr ⟨⟨sd.target, targetToDifficulty sd.target, s.now⟩, ?_, (hold t ht).symm, rfl⟩
          rw [hnew.grace]
          exact BoundedFifo.mem_push_self hpos _ _

/-- **An event** leaves the old target announced and the new one on its way. -/
theorem inFlight_handle (prims : Primitives) {s : TargetLink} (h : InFlight s) {d : Delivery}
    (ht : Timely s (.handle d)) (hout : s.outbox = []) (hid : sessionOf d.event = s.sessionId)
    (isOpen : Bool) :
    InFlight (s.handled (s.outcome prims d).validator (s.outcome prims d).sent isOpen) := by
  obtain ⟨event, unix, answers, world⟩ := d
  have hmeet := s.meet_session world
  cases event with
  | shareSubmitted requestId sub =>
    have heffect := ShareValidator.handleShare_effect prims ⟨s.now, unix⟩ answers (s.meet world)
      requestId sub
    have hsub : sub.sessionId = s.sessionId := hid
    rw [hsub] at heffect
    exact inFlight_effect h hout isOpen hmeet heffect
  | workerConnected sessionId workerName password localPort =>
    have hsession : sessionId = s.sessionId := hid
    subst hsession
    set v := s.meet world with hv
    set target := (v.makeTarget ⟨s.now, unix⟩ (v.initialDifficulty password localPort)).1 with htarget
    have hparse : parseTarget (difficultyToTargetHex (v.initialDifficulty password localPort))
        = .ok target := ShareValidator.targetHex_getD _ _
    have hrecord : ∀ sd', (s.outcome prims ⟨.workerConnected s.sessionId workerName password
        localPort, unix, answers, world⟩).validator.sessionDifficulty s.sessionId = some sd' →
        sd'.target = target := by
      intro sd' hsd'
      simp only [outcome, ShareValidator.handleEvent, ShareValidator.handleWorkerConnected,
        ShareValidator.setSession, Function.update_self] at hsd'
      cases hsd'
      rfl
    have hsent : targetsIn (s.outcome prims ⟨.workerConnected s.sessionId workerName password
        localPort, unix, answers, world⟩).sent = [Text.hexEncode target.bytes] := by
      simp only [outcome, ShareValidator.handleEvent, ShareValidator.handleWorkerConnected]
      cases (s.meet world).latestNotify <;> rfl
    have hlast : ∀ t, s.lastTarget = some t → t = target := by
      intro t hlast
      have htimely := ht s.sessionId workerName password localPort rfl t hlast
      rw [hparse] at htimely
      cases htimely
      rfl
    constructor
    · intro hnone
      have hsome : (s.outcome prims ⟨.workerConnected s.sessionId workerName password localPort,
          unix, answers, world⟩).validator.sessionDifficulty s.sessionId ≠ none := by
        simp only [outcome, ShareValidator.handleEvent, ShareValidator.handleWorkerConnected,
          ShareValidator.setSession, Function.update_self]
        exact Option.some_ne_none _
      exact absurd hnone hsome
    · intro sd' hsd'
      have hsame := hrecord sd' hsd'
      refine .inr ⟨_, hsent, ?_, ?_, fun t ht' => .inl ((hlast t ht').trans hsame.symm)⟩
      · rw [hsame]
        exact parseTarget_hexEncode target
      · change s.now - s.now ≤ 60
        rw [sub_self]
        norm_num
  | sessionDisconnected sessionId =>
    have hsession : sessionId = s.sessionId := hid
    subst hsession
    refine ⟨fun _ => rfl, fun sd hsd => ?_⟩
    simp [handled, outcome, ShareValidator.handleEvent, ShareValidator.setSession] at hsd
  | targetSuggested sessionId target =>
    exact inFlight_effect h hout isOpen hmeet (ShareValidator.quiet_refl _)

/-- **A message**: the target that is sent is the enforced one. -/
theorem inFlight_send {s : TargetLink} (h : InFlight s) (ht : Timely s .send) {m : ServerMessage}
    {outbox : List ServerMessage} (hout : s.outbox = m :: outbox) :
    InFlight ({ s with outbox := outbox }.sendToSession m) := by
  have hquiet : (∀ hex, m ≠ .setTarget hex) →
      targetsIn s.outbox = targetsIn outbox ∧ ∀ last, noteTarget last m = last := by
    intro hm
    rw [hout]
    cases m with
    | setTarget hex => exact absurd rfl (hm hex)
    | _ => exact ⟨rfl, fun _ => rfl⟩
  by_cases hm : ∃ hex, m = .setTarget hex
  · obtain ⟨hex, rfl⟩ := hm
    have hroom : ({ s with outbox := outbox } : TargetLink).Room := ht hex outbox hout
    have htargets : targetsIn s.outbox = hex :: targetsIn outbox := by
      rw [hout]
      rfl
    unfold sendToSession
    rw [if_pos hroom]
    constructor
    · intro hnone
      have hnil := h.none hnone
      rw [htargets] at hnil
      cases hnil
    · intro sd hsd
      rcases h.some sd hsd with ⟨hnil, -⟩ | ⟨hex', hone, hparse, -, -⟩
      · rw [htargets] at hnil
        cases hnil
      · rw [htargets] at hone
        obtain ⟨rfl, hnil⟩ := List.cons.inj hone
        refine .inl ⟨hnil, fun t htarget => ?_⟩
        have hlast : (parseTarget hex).toOption = some t := htarget
        rw [hparse] at hlast
        cases hlast
        rfl
  · obtain ⟨htargets, hnote⟩ := hquiet (fun hex heq => hm ⟨hex, heq⟩)
    unfold sendToSession
    split
    · refine ⟨fun hnone => htargets ▸ h.none hnone, fun sd hsd => ?_⟩
      dsimp only
      rw [hnote, ← htargets]
      exact h.some sd hsd
    · refine ⟨fun hnone => htargets ▸ h.none hnone, fun sd hsd => ?_⟩
      dsimp only
      rw [← htargets]
      exact h.some sd hsd

/-- **One timely move** keeps what is announced and what is on its way in order. -/
theorem step_inFlight (prims : Primitives) {s : TargetLink} (h : InFlight s) {i : Move}
    (ht : Timely s i) : InFlight (s.step prims i) := by
  cases i with
  | handle d =>
    unfold step
    dsimp only
    split
    · rename_i hready
      exact inFlight_handle prims h ht hready.1 hready.2 _
    · exact h
  | send =>
    unfold step
    dsimp only
    split
    · exact h
    · rename_i m outbox hout
      exact inFlight_send h ht hout
  | drain => exact ⟨h.none, h.some⟩
  | close => exact ⟨h.none, h.some⟩
  | wait dt =>
    refine ⟨h.none, fun sd hsd => ?_⟩
    rcases h.some sd hsd with hsettled | ⟨hex, hone, hparse, -, hlast⟩
    · exact .inl hsettled
    · refine .inr ⟨hex, hone, hparse, ht ?_, hlast⟩
      rw [hone]
      exact List.cons_ne_nil _ _

/-- **Announced targets are honoured**: in a run without a dropped or late target, and without a
    worker that connects at another target, the last announced target is the enforced one or was
    replaced at most 60 seconds ago. -/
theorem announced_always (prims : Primitives) (sessionId : String) (v : ShareValidator) (now : ℚ)
    (moves : List Move) (h : Allowed (step prims) Timely (accept sessionId v now) moves) :
    Always (step prims) Announced (accept sessionId v now) moves := by
  have hinv : Always (step prims) InFlight (accept sessionId v now) moves :=
    always_of_allowed (fun s i hs ht => step_inFlight prims hs ht) (inFlight_accept _ _ _) h
  exact hinv.imp fun s hs => hs.announced

/-! ### A session that does not read -/

instance (s : TargetLink) : Decidable s.Announced :=
  match hsd : s.validator.sessionDifficulty s.sessionId, ht : s.lastTarget with
  | none, _ => isTrue (fun sd _ h => by rw [hsd] at h; cases h)
  | some _, none => isTrue (fun _ t _ h => by rw [ht] at h; cases h)
  | some sd, some t =>
    decidable_of_iff (t = sd.target ∨ ∃ gt ∈ sd.recentTargets, gt.target = t ∧
      s.now - gt.setAt ≤ 60) ⟨fun h sd' t' hsd' ht' => by
        rw [hsd] at hsd'
        rw [ht] at ht'
        cases hsd'
        cases ht'
        exact h, fun h => h sd t hsd ht⟩

/-- One share a minute is the goal. -/
def slowConfig : VardiffConfig := ⟨1, 1, 60⟩

def delivery (event : StratumEvent) : Delivery where
  event := event
  unix := 60
  answers := sampleAnswers []
  world v := { v with vardiffConfig := slowConfig }

/-- A worker connects, and its difficulty and target are sent. -/
def connectMoves : List Move :=
  [.handle (delivery (.workerConnected "s1" "t1miner.rig" "" 3333)), .send, .send]

/-- A share for an unknown job; at most three messages are sent. -/
def shareMoves : List Move :=
  [.handle (delivery (.shareSubmitted "1" { sampleSubmission with jobId := "2" })), .send, .send,
    .send]

/-- Workers fill the channel of a session that does not read; a second later seven shares at once
    lead to a retarget; another minute passes. -/
def stalledRun : List Move :=
  (List.replicate 32 connectMoves).flatten ++ [.wait 1] ++
    (List.replicate 7 shareMoves).flatten ++ [.wait 61]

def stalledStart : TargetLink := accept "s1" (sampleValidator 1) 0

/-- The retarget's message was dropped, and the target that was announced last is not honoured any
    more. -/
theorem dropped_target_not_honoured :
    ¬ Always (step samplePrims) Announced stalledStart stalledRun := by
  intro h
  have hlast : ¬ Announced (run (step samplePrims) stalledStart stalledRun) := by decide +kernel
  exact hlast h.last

instance (s : TargetLink) (d : Delivery) : Decidable (Timely s (.handle d)) :=
  match hevent : d.event, ht : s.lastTarget with
  | .workerConnected _ _ password localPort, some t =>
    decidable_of_iff (parseTarget (difficultyToTargetHex
        ((s.meet d.world).initialDifficulty password localPort)) = .ok t)
      ⟨fun h _ _ _ _ hevent' t' ht' => by
        rw [hevent] at hevent'
        rw [ht] at ht'
        cases hevent'
        cases ht'
        exact h, fun h => h _ _ _ _ hevent t ht⟩
  | .workerConnected _ _ _ _, none => isTrue (fun _ _ _ _ _ t h => by rw [ht] at h; cases h)
  | .shareSubmitted _ _, _ => isTrue (fun _ _ _ _ h => by rw [hevent] at h; cases h)
  | .sessionDisconnected _, _ => isTrue (fun _ _ _ _ h => by rw [hevent] at h; cases h)
  | .targetSuggested _ _, _ => isTrue (fun _ _ _ _ h => by rw [hevent] at h; cases h)

instance (s : TargetLink) : Decidable (Timely s .send) :=
  match hout : s.outbox with
  | .setTarget hex :: outbox =>
    decidable_of_iff s.Room ⟨fun h _ _ _ => h, fun h => h hex outbox hout⟩
  | [] => isTrue (fun _ _ h => by rw [hout] at h; cases h)
  | .subscribeResult _ _ _ _ :: _ => isTrue (fun _ _ h => by rw [hout] at h; cases h)
  | .authorizeResult _ _ _ :: _ => isTrue (fun _ _ h => by rw [hout] at h; cases h)
  | .setDifficulty _ :: _ => isTrue (fun _ _ h => by rw [hout] at h; cases h)
  | .notify _ :: _ => isTrue (fun _ _ h => by rw [hout] at h; cases h)
  | .submitResult _ _ _ :: _ => isTrue (fun _ _ h => by rw [hout] at h; cases h)

instance (s : TargetLink) : (i : Move) → Decidable (Timely s i)
  | .handle _ => inferInstance
  | .send => inferInstance
  | .drain => isTrue trivial
  | .close => isTrue trivial
  | .wait dt =>
    inferInstanceAs (Decidable (targetsIn s.outbox ≠ [] → s.now + max dt 0 - s.handledAt ≤ 60))

/-- The same shares with a session that reads. -/
def readingRun : List Move :=
  connectMoves ++ [.drain, .drain, .wait 1] ++
    (List.replicate 7 (shareMoves ++ [.drain, .drain, .drain])).flatten ++ [.wait 61]

theorem announced_always_readingRun :
    Always (step samplePrims) Announced stalledStart readingRun :=
  announced_always samplePrims "s1" (sampleValidator 1) 0 readingRun (by decide +kernel)

end TargetLink

end ZcashMiningPool
