import ZcashMiningPool.Library.Run
import ZcashMiningPool.PoolCore.JobManager

/-!
# Clean jobs

What miners learn of a new tip: every run of templates through the job manager, with the tag
refused or not at every announcement.

* `LogEntry` — a new tip was processed, or an announcement was sent; `Announcer` keeps them.
* `FirstClean` — the first announcement of a tip is clean; `NonCleanAfterClean` — a non-clean one
  comes after a clean one of the same tip.
* `EarlyTagRefused` — the tag is refused for the early announcement of a new tip.

Principal result: `firstClean_iff` — the announcements are in order along a run exactly when no
tag of an early announcement is refused in it.
-/

set_option autoImplicit false

namespace ZcashMiningPool

open Table Machine

/-! ## The log of announcements -/

inductive LogEntry where
  | tip (previousblockhash : String)
  | sent (job : Notify)
  deriving DecidableEq, Repr

/-- The first announcement with the hash of a new tip is clean. -/
def FirstClean (log : List LogEntry) : Prop :=
  ∀ pre h mid n post, log = pre ++ .tip h :: (mid ++ .sent n :: post) →
    n.prevHash = reverseHex h → (∀ n', .sent n' ∈ mid → n'.prevHash ≠ n.prevHash) →
    n.cleanJobs = true

/-- Since the tip changed, a clean announcement with the same hash was sent before a non-clean
    one. -/
def NonCleanAfterClean (log : List LogEntry) : Prop :=
  ∀ pre h mid n post, log = pre ++ .tip h :: (mid ++ .sent n :: post) →
    (∀ h', .tip h' ∉ mid) → n.cleanJobs = false →
    ∃ n', .sent n' ∈ mid ∧ n'.cleanJobs = true ∧ n'.prevHash = n.prevHash

/-- Every tip was announced. -/
def AllAnnounced (log : List LogEntry) : Prop :=
  ∀ pre h mid, log = pre ++ .tip h :: mid → ∃ n, .sent n ∈ mid ∧ n.prevHash = reverseHex h

/-- The last tip was announced clean, with the hash of `prev`. -/
def CurrentClean (prev : String) (log : List LogEntry) : Prop :=
  ∀ pre h mid, log = pre ++ .tip h :: mid → (∀ h', .tip h' ∉ mid) →
    ∃ n, .sent n ∈ mid ∧ n.cleanJobs = true ∧ n.prevHash = reverseHex prev

section Log

variable {log : List LogEntry} {prev : String}

/-- An announcement after a tip is in the log so far, or is the one that is added. -/
theorem split_sent {x : LogEntry} {pre mid post : List LogEntry} {t : String} {n : Notify}
    (h : log ++ [x] = pre ++ .tip t :: (mid ++ .sent n :: post)) :
    (x = .sent n ∧ log = pre ++ .tip t :: mid) ∨
      ∃ post', log = pre ++ .tip t :: (mid ++ .sent n :: post') := by
  rcases post.eq_nil_or_concat with rfl | ⟨post', y, rfl⟩
  · have hsplit : log ++ [x] = (pre ++ .tip t :: mid) ++ [.sent n] := by
      rw [h]
      simp
    obtain ⟨hl, hx⟩ := List.append_inj' hsplit rfl
    exact .inl ⟨List.head_eq_of_cons_eq hx, hl⟩
  · have hsplit : log ++ [x] = (pre ++ .tip t :: (mid ++ .sent n :: post')) ++ [y] := by
      rw [h]
      simp
    exact .inr ⟨post', (List.append_inj' hsplit rfl).1⟩

theorem firstClean_sent (h : FirstClean log) {n : Notify}
    (hn : AllAnnounced log ∨ n.cleanJobs = true) : FirstClean (log ++ [.sent n]) := by
  intro pre t mid n' post hlog hprev hmid
  rcases split_sent hlog with ⟨hx, hl⟩ | ⟨post', hl⟩
  · cases hx
    rcases hn with hall | hclean
    · obtain ⟨n'', hmem, hp⟩ := hall pre t mid hl
      exact absurd (hp.trans hprev.symm) (hmid n'' hmem)
    · exact hclean
  · exact h pre t mid n' post' hl hprev hmid

theorem nonCleanAfterClean_sent (prev : String) (h : NonCleanAfterClean log) {n : Notify}
    (hn : CurrentClean prev log ∧ n.prevHash = reverseHex prev ∨ n.cleanJobs = true) :
    NonCleanAfterClean (log ++ [.sent n]) := by
  intro pre t mid n' post hlog htip hdirty
  rcases split_sent hlog with ⟨hx, hl⟩ | ⟨post', hl⟩
  · cases hx
    rcases hn with ⟨hcurrent, hprev⟩ | hclean
    · obtain ⟨n'', hmem, hclean, hp⟩ := hcurrent pre t mid hl htip
      exact ⟨n'', hmem, hclean, hp.trans hprev.symm⟩
    · rw [hclean] at hdirty
      cases hdirty
  · exact h pre t mid n' post' hl htip hdirty

theorem firstClean_tip (h : FirstClean log) (t : String) : FirstClean (log ++ [.tip t]) := by
  intro pre t' mid n post hlog hprev hmid
  rcases split_sent hlog with ⟨hx, -⟩ | ⟨post', hl⟩
  · cases hx
  · exact h pre t' mid n post' hl hprev hmid

theorem nonCleanAfterClean_tip (h : NonCleanAfterClean log) (t : String) :
    NonCleanAfterClean (log ++ [.tip t]) := by
  intro pre t' mid n post hlog htip hdirty
  rcases split_sent hlog with ⟨hx, -⟩ | ⟨post', hl⟩
  · cases hx
  · exact h pre t' mid n post' hl htip hdirty

/-- A tip at the end of a split log is an old one, or the one at the very end. -/
theorem split_tip {x : LogEntry} {pre mid : List LogEntry} {t : String}
    (h : log ++ [x] = pre ++ .tip t :: mid) :
    (mid = [] ∧ x = .tip t ∧ pre = log) ∨ ∃ mid', mid = mid' ++ [x] ∧ log = pre ++ .tip t :: mid' := by
  rcases mid.eq_nil_or_concat with rfl | ⟨mid', y, rfl⟩
  · obtain ⟨hl, hx⟩ := List.append_inj' h rfl
    cases hx
    exact .inl ⟨rfl, rfl, hl.symm⟩
  · have hsplit : log ++ [x] = (pre ++ .tip t :: mid') ++ [y] := by
      rw [h]
      simp
    obtain ⟨hl, hx⟩ := List.append_inj' hsplit rfl
    cases hx
    exact .inr ⟨mid', by simp, hl⟩

theorem allAnnounced_sent (h : AllAnnounced log) (n : Notify) :
    AllAnnounced (log ++ [.sent n]) := by
  intro pre t mid hlog
  rcases split_tip hlog with ⟨-, hx, -⟩ | ⟨mid', rfl, hl⟩
  · cases hx
  · obtain ⟨n', hmem, hp⟩ := h pre t mid' hl
    exact ⟨n', List.mem_append_left _ hmem, hp⟩

theorem currentClean_sent (h : CurrentClean prev log) (n : Notify) :
    CurrentClean prev (log ++ [.sent n]) := by
  intro pre t mid hlog htip
  rcases split_tip hlog with ⟨-, hx, -⟩ | ⟨mid', rfl, hl⟩
  · cases hx
  · obtain ⟨n', hmem, hclean, hp⟩ :=
      h pre t mid' hl (fun h' hh => htip h' (List.mem_append_left _ hh))
    exact ⟨n', List.mem_append_left _ hmem, hclean, hp⟩

/-- The announcement of a new tip settles the log again. -/
theorem allAnnounced_tip (h : AllAnnounced log) {t : String} {n : Notify}
    (hn : n.prevHash = reverseHex t) : AllAnnounced (log ++ [.tip t] ++ [.sent n]) := by
  intro pre t' mid hlog
  rcases split_tip hlog with ⟨-, hx, -⟩ | ⟨mid', rfl, hl⟩
  · cases hx
  · rcases split_tip hl with ⟨rfl, ht, -⟩ | ⟨mid'', rfl, hl'⟩
    · cases ht
      exact ⟨n, by simp, hn⟩
    · obtain ⟨n', hmem, hp⟩ := h pre t' mid'' hl'
      exact ⟨n', by simp [hmem], hp⟩

theorem currentClean_tip {t : String} {n : Notify} (hn : n.prevHash = reverseHex t)
    (hclean : n.cleanJobs = true) : CurrentClean t (log ++ [.tip t] ++ [.sent n]) := by
  intro pre t' mid hlog htip
  rcases split_tip hlog with ⟨-, hx, -⟩ | ⟨mid', rfl, hl⟩
  · cases hx
  · rcases split_tip hl with ⟨rfl, ht, -⟩ | ⟨mid'', rfl, hl'⟩
    · exact ⟨n, by simp, hclean, hn⟩
    · exact absurd (by simp) (htip t)

end Log

/-- The announcements are in order. -/
def InOrder (log : List LogEntry) : Prop := FirstClean log ∧ NonCleanAfterClean log

/-- In order, and ready for what comes next. -/
structure Settled (prev : String) (log : List LogEntry) : Prop where
  inOrder : InOrder log
  announced : AllAnnounced log
  current : CurrentClean prev log

theorem Settled.sent {prev : String} {log : List LogEntry} (h : Settled prev log) {n : Notify}
    (hn : n.prevHash = reverseHex prev) : Settled prev (log ++ [.sent n]) where
  inOrder := ⟨firstClean_sent h.inOrder.1 (.inl h.announced),
    nonCleanAfterClean_sent prev h.inOrder.2 (.inl ⟨h.current, hn⟩)⟩
  announced := allAnnounced_sent h.announced n
  current := currentClean_sent h.current n

/-- A new tip that is announced clean. -/
theorem Settled.tip {prev : String} {log : List LogEntry} (h : Settled prev log) {t : String}
    {n : Notify} (hn : n.prevHash = reverseHex t) (hclean : n.cleanJobs = true) :
    Settled t (log ++ [.tip t] ++ [.sent n]) where
  inOrder := ⟨firstClean_sent (firstClean_tip h.inOrder.1 t) (.inr hclean),
    nonCleanAfterClean_sent t (nonCleanAfterClean_tip h.inOrder.2 t) (.inr hclean)⟩
  announced := allAnnounced_tip h.announced hn
  current := currentClean_tip hn hclean

/-- A new tip that is announced non-clean breaks the order. -/
theorem not_firstClean_tip {log : List LogEntry} {t : String} {n : Notify}
    (hn : n.prevHash = reverseHex t) (hdirty : n.cleanJobs = false) :
    ¬ FirstClean (log ++ [.tip t] ++ [.sent n]) := by
  intro h
  have hclean := h log t [] n [] (by simp) hn (fun _ hmem => by cases hmem)
  rw [hdirty] at hclean
  cases hclean

/-! ## What one template sends -/

/-- One call of `process_template`. -/
structure TemplateInput where
  template : BlockTemplate
  now : ℚ
  /-- The outcomes of `inject_coinbase_tag` for the early announcement and for the full one. -/
  injectEmpty : Inject
  inject : Inject

/-- A new tip without transactions whose early announcement is refused its tag. -/
def EarlyTagRefused (m : JobManager) (i : TemplateInput) : Prop :=
  m.lastPrevHash ≠ i.template.previousblockhash ∧ i.template.transactions = [] ∧
    ∃ tag cb e, m.coinbaseTag = some tag ∧ i.template.coinbasetxn = some cb ∧
      i.injectEmpty cb.data tag i.template.chainHistoryRoot [] = .error e

theorem prevHashHex_fromTemplate (sha256d : Bytes → Bytes32) (template : BlockTemplate)
    (jobId : String) : (MiningJob.fromTemplate sha256d template jobId).prevHashHex
      = reverseHex template.previousblockhash := rfl

theorem chainHistoryRoot_emptied (template : BlockTemplate) :
    template.emptied.chainHistoryRoot = template.chainHistoryRoot := by
  unfold BlockTemplate.chainHistoryRoot BlockTemplate.emptied
  cases template.defaultroots <;> rfl

/-- The tag is refused when the call refuses it. -/
theorem tagTemplate_error_iff {inject : Inject} {tag : Option Bytes} {template : BlockTemplate} :
    (∃ e, tagTemplate inject tag template = .error e) ↔
      ∃ bs cb e, tag = some bs ∧ template.coinbasetxn = some cb ∧
        inject cb.data bs template.chainHistoryRoot template.txAuthDigests = .error e := by
  constructor
  · rintro ⟨e, h⟩
    cases tag with
    | none => cases h
    | some bs =>
      cases hcb : template.coinbasetxn with
      | none =>
        simp only [tagTemplate, hcb] at h
        cases h
      | some cb =>
        simp only [tagTemplate, hcb] at h
        cases hinj : inject cb.data bs template.chainHistoryRoot template.txAuthDigests with
        | error e' => exact ⟨bs, cb, e', rfl, rfl, hinj⟩
        | ok result =>
          rw [hinj] at h
          cases h
  · rintro ⟨bs, cb, e, rfl, hcb, hinj⟩
    exact ⟨e, by simp only [tagTemplate, hcb, hinj]; rfl⟩

namespace JobManager

variable (sha256d : Bytes → Bytes32)

/-- What `process_template` sends, in terms of the tip. -/
theorem processTemplate_spec (m : JobManager) (i : TemplateInput) :
    let out := m.processTemplate sha256d i.injectEmpty i.inject i.now i.template
    out.manager.coinbaseTag = m.coinbaseTag ∧
      out.manager.lastPrevHash = i.template.previousblockhash ∧
      (∀ b ∈ out.broadcasts, b.1.prevHashHex = reverseHex i.template.previousblockhash) ∧
      (m.lastPrevHash ≠ i.template.previousblockhash →
        (¬ EarlyTagRefused m i ∧ ∃ job more, out.broadcasts = (job, true) :: more) ∨
        (EarlyTagRefused m i ∧ ∃ job, out.broadcasts = [(job, false)])) := by
  have hfull := taggedOrNot_frame i.inject m.coinbaseTag i.template
  by_cases hnew : m.lastPrevHash = i.template.previousblockhash
  · -- The tip is the last one: there is no early announcement.
    simp only [processTemplate, hnew]
    simp only [ne_eq, not_true_eq_false, decide_false, Bool.false_and, if_false, List.map_nil,
      List.nil_append, Bool.false_eq_true, false_implies, and_true]
    split
    · exact ⟨rfl, rfl, by simp⟩
    · refine ⟨rfl, rfl, ?_⟩
      intro b hb
      obtain rfl := List.mem_singleton.1 hb
      rw [nextJob, prevHashHex_fromTemplate, hfull.2]
  · have hd : decide (¬ m.lastPrevHash = i.template.previousblockhash) = true := by
      simpa using hnew
    by_cases htxs : i.template.transactions = []
    · cases htag : tagTemplate i.injectEmpty m.coinbaseTag i.template.emptied with
      | error e =>
        obtain ⟨bs, cb, e', hbs, hcb, hinj⟩ := tagTemplate_error_iff.1 ⟨e, htag⟩
        have hrefused : EarlyTagRefused m i := by
          refine ⟨hnew, htxs, bs, cb, e', hbs, hcb, ?_⟩
          rw [chainHistoryRoot_emptied] at hinj
          exact hinj
        simp only [processTemplate, broadcastEmptyBlock, ne_eq, hd, htxs, htag]
        simp only [List.isEmpty_nil, Bool.and_self, if_true,
          Bool.true_or, Bool.not_true, Bool.false_eq_true, if_false, List.map_nil, List.nil_append]
        refine ⟨rfl, rfl, ?_, fun _ => .inr ⟨hrefused, _, rfl⟩⟩
        intro b hb
        obtain rfl := List.mem_singleton.1 hb
        rw [nextJob, prevHashHex_fromTemplate, hfull.2]
      | ok empty =>
        have hempty := (tagTemplate_frame htag).2
        have hnot : ¬ EarlyTagRefused m i := by
          rintro ⟨-, -, bs, cb, e, hbs, hcb, hinj⟩
          rw [← chainHistoryRoot_emptied] at hinj
          have htagged : ∃ e, tagTemplate i.injectEmpty m.coinbaseTag i.template.emptied
              = .error e := tagTemplate_error_iff.2 ⟨bs, cb, e, hbs, hcb, hinj⟩
          obtain ⟨e', he'⟩ := htagged
          rw [htag] at he'
          cases he'
        simp only [processTemplate, broadcastEmptyBlock, ne_eq, hd, htxs, htag]
        simp only [List.isEmpty_nil, Bool.and_self, if_true,
          Bool.true_or, Bool.not_true, Bool.false_eq_true, if_false, List.map_cons, List.map_nil,
          List.cons_append, List.nil_append]
        refine ⟨rfl, rfl, ?_, fun _ => .inl ⟨hnot, _, _, rfl⟩⟩
        intro b hb
        rcases List.mem_cons.1 hb with rfl | hb
        · rw [nextJob, prevHashHex_fromTemplate, hempty]
          rfl
        · obtain rfl := List.mem_singleton.1 hb
          rw [nextJob, prevHashHex_fromTemplate]
          exact congrArg reverseHex hfull.2
    · have hnot : ¬ EarlyTagRefused m i := fun h => htxs h.2.1
      have hisEmpty : i.template.transactions.isEmpty = false := by
        cases hl : i.template.transactions with
        | nil => exact absurd hl htxs
        | cons tx txs => rfl
      simp only [processTemplate, ne_eq, hd, hisEmpty]
      simp only [Bool.and_false, Bool.false_eq_true,
        if_false, Bool.true_or, Bool.not_true, List.map_nil, List.nil_append, if_true,
        Bool.not_false, Bool.and_self]
      refine ⟨rfl, rfl, ?_, fun _ => .inl ⟨hnot, _, _, rfl⟩⟩
      intro b hb
      obtain rfl := List.mem_singleton.1 hb
      rw [nextJob, prevHashHex_fromTemplate, hfull.2]

end JobManager

/-! ## Runs -/

/-- The manager and what it announced. -/
structure Announcer where
  manager : JobManager
  log : List LogEntry

namespace Announcer

variable (sha256d : Bytes → Bytes32)

def start (coinbaseTag : Option Bytes) (now : ℚ) : Announcer := ⟨JobManager.new coinbaseTag now, []⟩

def step (s : Announcer) (i : TemplateInput) : Announcer :=
  let out := s.manager.processTemplate sha256d i.injectEmpty i.inject i.now i.template
  ⟨out.manager, s.log ++
    (if s.manager.lastPrevHash = i.template.previousblockhash then []
      else [.tip i.template.previousblockhash]) ++
    out.broadcasts.map (fun b => .sent (b.1.toNotify b.2))⟩

/-- Announcements of the current tip keep the log settled. -/
theorem settled_append {prev : String} {log : List LogEntry} (h : Settled prev log)
    {bs : List (MiningJob × Bool)} (hbs : ∀ b ∈ bs, b.1.prevHashHex = reverseHex prev) :
    Settled prev (log ++ bs.map (fun b => .sent (b.1.toNotify b.2))) := by
  induction bs generalizing log with
  | nil =>
    rw [List.map_nil, List.append_nil]
    exact h
  | cons b bs ih =>
    have hb : Settled prev (log ++ [.sent (b.1.toNotify b.2)]) :=
      h.sent (hbs b List.mem_cons_self)
    have hrest := ih hb (fun x hx => hbs x (List.mem_cons_of_mem _ hx))
    rw [List.append_assoc] at hrest
    exact hrest

theorem step_settled {s : Announcer} (h : Settled s.manager.lastPrevHash s.log)
    {i : TemplateInput} (hi : ¬ EarlyTagRefused s.manager i) :
    Settled (step sha256d s i).manager.lastPrevHash (step sha256d s i).log := by
  obtain ⟨-, hprev, hall, hnew⟩ := s.manager.processTemplate_spec sha256d i
  unfold step
  dsimp only
  rw [hprev]
  by_cases heq : s.manager.lastPrevHash = i.template.previousblockhash
  · rw [if_pos heq, List.append_nil]
    rw [heq] at h
    exact settled_append h hall
  · rw [if_neg heq]
    rcases hnew heq with ⟨-, job, more, hbs⟩ | ⟨hrefused, -⟩
    · rw [hbs] at hall ⊢
      have hfirst := h.tip (t := i.template.previousblockhash) (n := job.toNotify true)
        (hall _ List.mem_cons_self) rfl
      have hrest := settled_append hfirst (fun b hb => hall b (List.mem_cons_of_mem _ hb))
      rw [List.append_assoc] at hrest
      exact hrest
    · exact absurd hrefused hi

/-- A refused early announcement breaks the order at once. -/
theorem step_not_inOrder {s : Announcer} {i : TemplateInput} (hi : EarlyTagRefused s.manager i) :
    ¬ InOrder (step sha256d s i).log := by
  obtain ⟨-, -, hall, hnew⟩ := s.manager.processTemplate_spec sha256d i
  unfold step
  dsimp only
  rw [if_neg hi.1]
  rcases hnew hi.1 with ⟨hnot, -⟩ | ⟨-, job, hbs⟩
  · exact absurd hi hnot
  · rw [hbs] at hall ⊢
    intro h
    exact not_firstClean_tip (n := job.toNotify false) (hall _ List.mem_cons_self) rfl h.1

theorem settled_start (coinbaseTag : Option Bytes) (now : ℚ) :
    Settled (start coinbaseTag now).manager.lastPrevHash (start coinbaseTag now).log where
  inOrder := ⟨fun _ _ _ _ _ h => by simp [start] at h, fun _ _ _ _ _ h => by simp [start] at h⟩
  announced := fun _ _ _ h => by simp [start] at h
  current := fun _ _ _ h => by simp [start] at h

end Announcer

/-- **Clean jobs**: along a run of templates the first announcement of every new tip is clean, and
    no non-clean one comes before it, exactly when no early announcement is refused its tag. -/
theorem firstClean_iff (sha256d : Bytes → Bytes32) (coinbaseTag : Option Bytes) (now : ℚ)
    (is : List TemplateInput) :
    Always (Announcer.step sha256d) (fun s => InOrder s.log) (Announcer.start coinbaseTag now) is ↔
      Allowed (Announcer.step sha256d) (fun s i => ¬ EarlyTagRefused s.manager i)
        (Announcer.start coinbaseTag now) is := by
  have hstart := Announcer.settled_start coinbaseTag now
  have hany : Allowed (Announcer.step sha256d) (fun _ _ => True)
      (Announcer.start coinbaseTag now) is := allowed_of_forall (fun _ _ => trivial) _ _
  have hlaw := @always_iff_allowed Announcer TemplateInput (Announcer.step sha256d)
    (fun _ _ => True) (fun s i => ¬ EarlyTagRefused s.manager i) (fun s => InOrder s.log)
    (fun s => Settled s.manager.lastPrevHash s.log)
  refine hlaw ?_ ?_ hstart hstart.inOrder hany
  · intro s i h _ _ hi
    exact Announcer.step_settled sha256d h hi
  · intro s i h _ _
    constructor
    · intro hord hi
      exact Announcer.step_not_inOrder sha256d hi hord
    · intro hi
      exact (Announcer.step_settled sha256d h hi).inOrder

/-! ### A refused tag -/

/-- A new tip whose coinbase leaves no room for a tag of eight bytes. -/
def fullCoinbaseTemplate : BlockTemplate where
  version := 4
  previousblockhash := Text.hexEncode (Bytes32.fill 7).bytes
  lightclientroothash := none
  blockcommitmentshash := none
  finalsaplingroothash := none
  defaultroots := none
  transactions := []
  coinbasetxn := some ⟨Text.hexEncode (sampleCoinbase v4Version 8 96),
    Text.hexEncode (Bytes32.fill 3).bytes, none⟩
  target := Text.hexEncode (Bytes32.fill 255).bytes
  curtime := 0
  bits := Text.hexEncode [5, 5, 5, 5]
  height := 50
  longpollid := none

def fullCoinbaseInput : TemplateInput :=
  ⟨fullCoinbaseTemplate, 0, injectCoinbaseTag sampleCoinbasePrims,
    injectCoinbaseTag sampleCoinbasePrims⟩

/-- A tag that does not fit: the only announcement of the new tip is not clean. -/
theorem new_tip_announced_nonclean :
    ¬ Always (Announcer.step sampleCoinbasePrims.sha256d) (fun s => InOrder s.log)
      (Announcer.start (some (ascii "my pool!")) 0) [fullCoinbaseInput] := by
  have hinj : fullCoinbaseInput.injectEmpty (Text.hexEncode (sampleCoinbase v4Version 8 96))
      (ascii "my pool!") fullCoinbaseInput.template.chainHistoryRoot []
        = .error "scriptSig would be 104 bytes (max 100)" := by
    have hempty : fullCoinbaseInput.injectEmpty = injectCoinbaseTag sampleCoinbasePrims := rfl
    rw [hempty, injectCoinbaseTag_hexEncode sampleCoinbasePrims false (by decide)]
    decide +kernel
  have hrefused : EarlyTagRefused (Announcer.start (some (ascii "my pool!")) 0).manager
      fullCoinbaseInput := by
    refine ⟨by decide +kernel, rfl, ascii "my pool!", _, _, rfl, rfl, hinj⟩
  intro h
  exact Announcer.step_not_inOrder sampleCoinbasePrims.sha256d hrefused h.2.head

end ZcashMiningPool
