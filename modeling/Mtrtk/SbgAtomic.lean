import Mtrtk.SbgCommands

/-!
# Commands are served at once

What is true of the channel of `SbgCommands`. `Underway` is what a call that holds the lock relies
on : its frames leave the transport behind those of earlier calls, and what its waiter would take
of the answers under way, or still to come for these frames, is the unit's answer to it. `Ended` is
what it leaves behind, `Ready` what the next one needs of that. `commands_atomic` puts them
together.
-/

namespace Mtrtk

namespace Sbg

/-! ## Frames -/

theorem payloadOf_frameBytes (id : UInt8) (payload : List UInt8) :
    payloadOf (frameBytes cmdClass id payload) = payload := by
  have hext : isExtended (frameBytes cmdClass id payload) = false :=
    show (cmdClass &&& extendedClass != 0) = false by decide
  have hlength : (frameBytes cmdClass id payload).length - 3 = 6 + payload.length := by
    simp [frameBytes, packU16]
    omega
  rw [payloadOf, hext, hlength]
  simp [slice, frameBytes, packU16, Nat.add_comm 6]

@[simp] theorem isCmdFrame_frameBytes (id msgId : UInt8) (payload : List UInt8) :
    isCmdFrame ⟨.sbg, frameBytes cmdClass id payload⟩ msgId = decide (id = msgId) := by
  simp [isCmdFrame, frameBytes, byteAt]

variable {cmd cmd' : Command} {payload selector : List UInt8} {code : UInt16}

theorem isAckFor_dataFrame (id : UInt8) : isAckFor (dataFrame cmd payload) id = false := by
  simp [isAckFor, dataFrame, cmd.ne_ack]

theorem isAckFor_ackFrame (id : UInt8) :
    isAckFor (ackFrame cmd code) id = decide (cmd.id = id) := by
  simp [isAckFor, ackFrame, payloadOf_frameBytes, packU16, byteAt]

@[simp] theorem ackCode_ackFrame : ackCode (ackFrame cmd code) = code.toNat := by
  have hlt := code.toNat_lt
  simp only [ackCode, ackFrame, payloadOf_frameBytes, packU16, byteAt]
  simp [Nat.mod_eq_of_lt (show code.toNat / 256 < 256 by omega)]
  omega

theorem accepts_get_dataFrame : (Request.get cmd' selector).accepts (dataFrame cmd payload) =
    (decide (cmd = cmd') && selector.isPrefixOf payload) := by
  have hid : cmd.id = cmd'.id ↔ cmd = cmd' := by
    cases cmd
    cases cmd'
    simp
  simp only [Request.accepts, isAckFor_dataFrame]
  by_cases h : cmd = cmd' <;> simp [dataFrame, payloadOf_frameBytes, hid, h]

theorem accepts_set_dataFrame :
    (Request.set cmd' selector).accepts (dataFrame cmd payload) = false :=
  isAckFor_dataFrame _

theorem accepts_get_ackFrame : (Request.get cmd' selector).accepts (ackFrame cmd code) =
    (decide (cmd = cmd') && decide (code ≠ 0)) := by
  have hid : cmd.id = cmd'.id ↔ cmd = cmd' := by
    cases cmd
    cases cmd'
    simp
  have hcode : code.toNat = 0 ↔ code = 0 := by simp [← UInt16.toNat_inj]
  have hack : isCmdFrame (ackFrame cmd code) cmd'.id = false := by
    simpa [ackFrame] using cmd'.ne_ack.symm
  simp [Request.accepts, hack, isAckFor_ackFrame, hid, hcode]

theorem accepts_set_ackFrame :
    (Request.set cmd' payload).accepts (ackFrame cmd code) = decide (cmd = cmd') := by
  have hid : cmd.id = cmd'.id ↔ cmd = cmd' := by
    cases cmd
    cases cmd'
    simp
  simp [Request.accepts, isAckFor_ackFrame, hid]

/-- Only frames of commands are accepted. -/
theorem accepts_other {f : Frame} (h : ¬(f.proto = .sbg ∧ byteAt f.raw 3 = cmdClass))
    (r : Request) : r.accepts f = false := by
  have hcmd : ∀ id, isCmdFrame f id = false := fun id => by
    simp only [isCmdFrame, Bool.and_eq_false_iff, decide_eq_false_iff_not]
    exact Or.inl (not_and_or.1 h)
  cases r <;> simp [Request.accepts, isAckFor, hcmd]

/-! ## The answer to a request -/

variable {υ : Type*} (sbg : SbgUnit υ)

/-- The two views of the unit are of one unit. -/
theorem wired_fst (u : υ) (r : Request) : (sbg.wired.handle u r).1 = (sbg.called.handle u r).1 := by
  cases r with
  | get cmd selector =>
    simp only [SbgUnit.wired, SbgUnit.called]
    cases sbg.report u cmd selector <;> rfl
  | set cmd payload => rfl

/-- A call makes the unit's answer of its frame. -/
theorem outcome_wired (u : υ) (r : Request) :
    r.outcome (sbg.wired.handle u r).2 = (sbg.called.handle u r).2 := by
  cases r with
  | get cmd selector =>
    simp only [SbgUnit.wired, SbgUnit.called]
    cases sbg.report u cmd selector with
    | ok data =>
      have hid : byteAt (dataFrame cmd (selector ++ data)).raw 2 ≠ ack := cmd.ne_ack
      simp only [Request.outcome, if_neg hid]
      rw [dataFrame, payloadOf_frameBytes]
    | error code =>
      have hid : byteAt (ackFrame cmd code).raw 2 = ack := rfl
      simp only [Request.outcome, if_pos hid, ackCode_ackFrame]
  | set cmd payload =>
    have hcode : ∀ code : UInt16, code.toNat ≠ 0 ↔ ¬code = 0 := fun code => by
      simp [← UInt16.toNat_inj]
    simp only [SbgUnit.wired, SbgUnit.called, Request.outcome, ackCode_ackFrame, hcode, ite_not]

/-- The unit has answered. -/
theorem answer_called (u : υ) (r : Request) :
    (sbg.called.handle u r).2.answer = some (sbg.called.handle u r).2 := by
  cases r with
  | get cmd selector =>
    simp only [SbgUnit.called]
    cases sbg.report u cmd selector <;> rfl
  | set cmd payload =>
    simp only [SbgUnit.called]
    split <;> rfl

/-- Handling a `get` changes nothing. -/
theorem wired_get_fst (u : υ) (cmd : Command) (selector : List UInt8) :
    (sbg.wired.handle u (.get cmd selector)).1 = u := by
  simp only [SbgUnit.wired]
  cases sbg.report u cmd selector <;> rfl

theorem steadyAt_get (u : υ) (cmd : Command) (selector : List UInt8) :
    sbg.wired.SteadyAt u (.get cmd selector) := by
  rw [Device.SteadyAt, wired_get_fst]

theorem steady_wired {r : Request} (h : sbg.called.Steady r) : sbg.wired.Steady r := by
  intro u
  cases r with
  | get cmd selector => exact steadyAt_get sbg u cmd selector
  | set cmd payload =>
    rw [Device.SteadyAt, wired_fst]
    -- the code is told by the outcome
    have hcode : ∀ code code' : UInt16,
        (if code = 0 then Outcome.acked else .refused code.toNat) =
          (if code' = 0 then .acked else .refused code'.toNat) → code = code' := by
      intro code code' heq
      split_ifs at heq with h h'
      · rw [h, h']
      · exact UInt16.toNat_inj.1 (Outcome.refused.inj heq)
    obtain ⟨hunit, houtcome⟩ := Prod.ext_iff.1 (h u)
    exact Prod.ext hunit (congrArg (ackFrame cmd) (hcode _ _ houtcome))

/-! ## What a call leaves behind -/

/-- Of calls that are apart, the second does not take the answer to the first, unless both ask for
the same. -/
theorem accepts_apart {r r' : Request} {u : υ} (h : Apart r (sbg.called.handle u r).2 r')
    (hsame : ¬(r = r' ∧ ∃ cmd selector, r = .get cmd selector)) :
    r'.accepts (sbg.wired.handle u r).2 = false := by
  -- an ACK is taken only for the same command
  have hack : ∀ cmd code, cmd ≠ r'.command → r'.accepts (ackFrame cmd code) = false := by
    intro cmd code hne
    cases r' with
    | get cmd' selector' =>
      rw [accepts_get_ackFrame, Bool.and_eq_false_iff]
      exact Or.inl (decide_eq_false hne)
    | set cmd' payload' =>
      rw [accepts_set_ackFrame]
      exact decide_eq_false hne
  cases r with
  | get cmd selector =>
    cases hreport : sbg.report u cmd selector with
    | error code =>
      simp only [SbgUnit.called, hreport] at h
      simp only [SbgUnit.wired, hreport]
      rcases h with hne | h
      · exact hack cmd code hne
      · exact h.elim
    | ok data =>
      simp only [SbgUnit.called, hreport] at h
      simp only [SbgUnit.wired, hreport]
      cases r' with
      | set cmd' payload' => exact accepts_set_dataFrame
      | get cmd' selector' =>
        rw [accepts_get_dataFrame]
        by_contra htaken
        simp only [Bool.not_eq_false, Bool.and_eq_true, decide_eq_true_eq,
          List.isPrefixOf_iff_prefix] at htaken
        obtain ⟨rfl, hprefix⟩ := htaken
        have hlength : selector.length = selector'.length := h.resolve_left fun hne => hne rfl
        obtain rfl : selector' = selector :=
          (List.prefix_of_prefix_length_le hprefix (List.prefix_append _ _) hlength.ge).eq_of_length
            hlength.symm
        exact hsame ⟨rfl, _, _, rfl⟩
  | set cmd payload =>
    simp only [SbgUnit.called] at h
    simp only [SbgUnit.wired]
    rcases h with hne | h
    · exact hack cmd _ hne
    · cases r' with
      | set cmd' payload' =>
        split_ifs at h
        · exact h.elim
        · exact h.elim
      | get cmd' selector' =>
        split_ifs at h with hcode
        · rw [accepts_get_ackFrame, hcode]
          simp
        · exact h.elim

/-! ## The invariant -/

/-- What the caller is told. -/
def Call.told (c : Call) : Request × Option Outcome := (c.request, c.outcome.answer)

/-- The unit has handled `r`, and all that is under way is the same again. -/
structure Heard (u : υ) (r : Request) (s : Channel υ) : Prop where
  unit : s.unit = (sbg.wired.handle u r).1
  outbox : ∀ p ∈ s.outbox, p = r
  line : ∀ f ∈ s.line, f = (sbg.wired.handle u r).2

/-- What is on its way to the unit after `r` was sent `sent` times. It is sent again only where that
does no harm. -/
structure Sent (u : υ) (r : Request) (sent : ℕ) (s : Channel υ) : Prop where
  outgoing : sbg.wired.Outgoing r.accepts u r sent s.unit s.outbox
  once : sent ≤ 1 ∨ sbg.wired.SteadyAt u r

/-- The call `ex` holds the lock and found the unit in the state `u`. -/
structure Underway (u : υ) (s : Channel υ) (ex : Exchange) : Prop where
  sent : Sent sbg u ex.request ex.sent s
  due : Due ex.request.accepts (sbg.wired.handle u ex.request).2
    (s.line ++ sbg.wired.answers u s.outbox)
  own : ∀ f ∈ s.line, ex.request.accepts f = true → s.unit = (sbg.wired.handle u ex.request).1
  got : ∀ f, ex.got = some (.ok f) →
    f = (sbg.wired.handle u ex.request).2 ∧ Heard sbg u ex.request s
  budget : ex.sent + ex.left + (if ex.phase = .locking then 1 else 0) ≤ ex.request.retries

/-- The last call that is over found the unit in the state `u`. -/
structure Ended (u : υ) (s : Channel υ) (last : Call) : Prop where
  sent : Sent sbg u last.request last.sent s
  heard : last.outcome.answer.isSome = true →
    last.outcome = (sbg.called.handle u last.request).2 ∧ Heard sbg u last.request s

/-- A call of `r` may begin : nothing under way is taken for its answer. -/
structure Ready (r : Request) (s : Channel υ) : Prop where
  sent : Sent sbg s.unit r 0 s
  due : Due r.accepts (sbg.wired.handle s.unit r).2 (s.line ++ sbg.wired.answers s.unit s.outbox)
  own : ∀ f ∈ s.line, r.accepts f = true → s.unit = (sbg.wired.handle s.unit r).1

/-- No call holds the lock. -/
def Resting (u₀ : υ) (s : Channel υ) : Prop :=
  s.calls = [] ∧ s.unit = u₀ ∧ s.outbox = [] ∨
    ∃ calls last u, s.calls = calls ++ [last] ∧ sbg.called.Serves u₀ (calls.map Call.told) u ∧
      Ended sbg u s last

/-- The calls that are over are served, and the one that holds the lock goes on from there. -/
def Inv (u₀ : υ) (s : Channel υ) : Prop :=
  (∀ c ∈ s.calls, c.sent ≤ c.request.retries) ∧
    match s.current with
    | none => Resting sbg u₀ s
    | some ex => ∃ u, sbg.called.Serves u₀ (s.calls.map Call.told) u ∧ Underway sbg u s ex

variable {sbg} {u₀ u : υ} {s s' : Channel υ} {ex : Exchange} {r : Request} {sent : ℕ}

theorem Sent.unit_eq (h : Sent sbg u r sent s) :
    s.unit = u ∨ s.unit = (sbg.called.handle u r).1 := by
  rw [← wired_fst]
  exact h.outgoing.unit_eq

/-- The calls that are over are served by the unit as it is now. -/
theorem Resting.serves (h : Resting sbg u₀ s) :
    sbg.called.Serves u₀ (s.calls.map Call.told) s.unit := by
  obtain ⟨hcalls, rfl, -⟩ | ⟨calls, last, u, hcalls, hserves, hended⟩ := h
  · rw [hcalls]
    exact .nil
  rw [hcalls, List.map_append, List.map_singleton, Call.told]
  rcases hanswer : last.outcome.answer with _ | answer
  · rcases hended.sent.unit_eq with hunit | hunit <;> rw [hunit]
    · exact .unheard _ hserves
    · exact .handled _ hserves
  · obtain ⟨houtcome, hheard⟩ := hended.heard (by rw [hanswer]; rfl)
    rw [houtcome, answer_called] at hanswer
    rw [← hanswer, hheard.unit, wired_fst]
    exact .answered _ hserves

/-! ### What is under way goes on -/

theorem Heard.handled {p : Request} {outbox : List Request} (h : Heard sbg u r s)
    (hsent : Sent sbg u r sent s) (hout : s.outbox = p :: outbox) :
    Heard sbg u r (({ s with outbox := outbox } : Channel υ).handled sbg p) := by
  obtain ⟨rfl, hrest⟩ := List.forall_mem_cons.1 (hout ▸ h.outbox)
  have hout' := hout ▸ hsent.outgoing
  have hhandle : sbg.wired.handle s.unit p = sbg.wired.handle u p := by
    obtain ⟨hunit, -⟩ | ⟨-, hhandle, -⟩ := hout'.handle hsent.once
    · rw [hunit]
    · exact hhandle
  refine ⟨congrArg Prod.fst hhandle, hrest, fun f hf => ?_⟩
  rcases List.mem_append.1 hf with hf | hf
  · exact h.line f hf
  · rw [List.mem_singleton.1 hf]
    exact congrArg Prod.snd hhandle

theorem Heard.lose {outbox : List Request} {line : List Frame} (h : Heard sbg u r s)
    (hout : outbox.Sublist s.outbox) (hline : line.Sublist s.line) :
    Heard sbg u r { s with outbox := outbox, line := line } :=
  ⟨h.unit, fun p hp => h.outbox p (hout.subset hp), fun f hf => h.line f (hline.subset hf)⟩

theorem Heard.congr (h : Heard sbg u r s) (hunit : s'.unit = s.unit) (hout : s'.outbox = s.outbox)
    (hline : s'.line = s.line) : Heard sbg u r s' :=
  ⟨hunit.trans h.unit, hout ▸ h.outbox, hline ▸ h.line⟩

theorem Sent.congr (h : Sent sbg u r sent s) (hunit : s'.unit = s.unit)
    (hout : s'.outbox = s.outbox) : Sent sbg u r sent s' := by
  refine ⟨?_, h.once⟩
  rw [hunit, hout]
  exact h.outgoing

/-- Nothing has moved, and the call goes on with its request. -/
theorem Underway.congr {ex' : Exchange} (h : Underway sbg u s ex) (hunit : s'.unit = s.unit)
    (hout : s'.outbox = s.outbox) (hline : s'.line = s.line)
    (hrequest : ex'.request = ex.request) (hsent : ex'.sent = ex.sent)
    (hgot : ∀ f, ex'.got = some (.ok f) →
      f = (sbg.wired.handle u ex.request).2 ∧ Heard sbg u ex.request s)
    (hbudget : ex'.sent + ex'.left + (if ex'.phase = .locking then 1 else 0) ≤ ex.request.retries) :
    Underway sbg u s' ex' where
  sent := by
    rw [hrequest, hsent]
    exact h.sent.congr hunit hout
  due := by
    rw [hrequest, hline, hout]
    exact h.due
  own := by
    rw [hrequest, hline, hunit]
    exact h.own
  got f hf := by
    rw [hrequest]
    exact (hgot f hf).imp_right fun hheard => hheard.congr hunit hout hline
  budget := by
    rw [hrequest]
    exact hbudget

theorem Sent.handled {p : Request} {outbox : List Request} (h : Sent sbg u r sent s)
    (hout : s.outbox = p :: outbox) :
    Sent sbg u r sent (({ s with outbox := outbox } : Channel υ).handled sbg p) := by
  refine ⟨?_, h.once⟩
  obtain ⟨hunit, hidle, hnext⟩ | ⟨-, hhandle, hnext⟩ :=
    (hout ▸ h.outgoing : sbg.wired.Outgoing _ _ _ _ _ (p :: outbox)).handle h.once
  · change sbg.wired.Outgoing _ u r sent (sbg.wired.handle s.unit p).1 outbox
    rw [hunit, hidle.fst]
    exact hnext
  · change sbg.wired.Outgoing _ u r sent (sbg.wired.handle s.unit p).1 outbox
    rw [hhandle]
    exact hnext

theorem Sent.lose {p : Request} {outbox : List Request} (h : Sent sbg u r sent s)
    (hout : s.outbox = p :: outbox) : Sent sbg u r sent { s with outbox := outbox } :=
  ⟨(hout ▸ h.outgoing : sbg.wired.Outgoing _ _ _ _ _ (p :: outbox)).lose, h.once⟩

/-- A frame of the transport reaches the unit. -/
theorem Underway.handled {p : Request} {outbox : List Request} (h : Underway sbg u s ex)
    (hout : s.outbox = p :: outbox) :
    Underway sbg u (({ s with outbox := outbox } : Channel υ).handled sbg p) ex := by
  have hcases := (hout ▸ h.sent.outgoing : sbg.wired.Outgoing _ _ _ _ _ (p :: outbox)).handle
    h.sent.once
  have hanswer : (sbg.wired.handle s.unit p).2 = (sbg.wired.handle u p).2 := by
    obtain ⟨hunit, -⟩ | ⟨rfl, hhandle, -⟩ := hcases
    · rw [hunit]
    · rw [hhandle]
  exact {
    sent := h.sent.handled hout
    due := by
      have hdue := h.due
      rw [hout] at hdue
      change Due _ _ ((s.line ++ [(sbg.wired.handle s.unit p).2]) ++ sbg.wired.answers u outbox)
      rw [hanswer, List.append_assoc]
      exact hdue
    own := fun f hf htaken => by
      change (sbg.wired.handle s.unit p).1 = _
      obtain ⟨hunit, hidle, -⟩ | ⟨rfl, hhandle, -⟩ := hcases
      · have hstays : (sbg.wired.handle s.unit p).1 = s.unit := by rw [hunit, hidle.fst]
        rw [hstays]
        rcases List.mem_append.1 hf with hf | hf
        · exact h.own f hf htaken
        · rw [List.mem_singleton.1 hf, hanswer, hidle.refused] at htaken
          cases htaken
      · rw [hhandle]
    got := fun f hf => (h.got f hf).imp_right fun hheard => hheard.handled h.sent hout
    budget := h.budget }

/-- A frame of the transport is lost. -/
theorem Underway.lose {p : Request} {outbox : List Request} (h : Underway sbg u s ex)
    (hout : s.outbox = p :: outbox) : Underway sbg u { s with outbox := outbox } ex where
  sent := h.sent.lose hout
  due := by
    have hdue := h.due
    rw [hout] at hdue
    exact hdue.sublist ((List.sublist_cons_self _ _).append_left _)
  own := h.own
  got f hf := (h.got f hf).imp_right fun hheard =>
    hheard.lose (hout ▸ List.sublist_cons_self _ _) (List.Sublist.refl _)
  budget := h.budget

/-- An answer is gone from the line, whether it is heard or lost. -/
theorem Underway.tail {f : Frame} {line : List Frame} (h : Underway sbg u s ex)
    (hline : s.line = f :: line) : Underway sbg u { s with line := line } ex where
  sent := h.sent.congr rfl rfl
  due := by
    have hdue := h.due
    rw [hline] at hdue
    exact hdue.sublist (List.sublist_cons_self _ _)
  own g hg := h.own g (hline ▸ List.mem_cons_of_mem f hg)
  got g hg := (h.got g hg).imp_right fun hheard =>
    hheard.lose (List.Sublist.refl _) (hline ▸ List.sublist_cons_self _ _)
  budget := h.budget

/-- The last call stays as it ended, whatever becomes of what it has left under way. -/
theorem Resting.imp (h : Resting sbg u₀ s) (hcalls : s'.calls = s.calls)
    (hsame : s.outbox = [] → s'.unit = s.unit ∧ s'.outbox = [])
    (hended : ∀ u last, Ended sbg u s last → Ended sbg u s' last) : Resting sbg u₀ s' := by
  obtain ⟨hnone, hunit, hout⟩ | ⟨calls, last, u, hlast, hserves, hend⟩ := h
  · exact .inl ⟨hcalls.trans hnone, (hsame hout).1.trans hunit, (hsame hout).2⟩
  · exact .inr ⟨calls, last, u, hcalls.trans hlast, hserves, hended u last hend⟩

theorem Resting.congr (h : Resting sbg u₀ s) (hcalls : s'.calls = s.calls)
    (hunit : s'.unit = s.unit) (hout : s'.outbox = s.outbox) (hline : s'.line = s.line) :
    Resting sbg u₀ s' := by
  refine h.imp hcalls (fun hno => ⟨hunit, hout.trans hno⟩) fun u last hended =>
    ⟨hended.sent.congr hunit hout, fun hanswer => ?_⟩
  exact (hended.heard hanswer).imp_right fun hheard => hheard.congr hunit hout hline

/-! ### Calls begin and end -/

theorem ready_of_quiet (hout : s.outbox = []) (hline : s.line = []) : Ready sbg r s where
  sent := by
    refine ⟨.start fun p hp => ?_, .inl (Nat.zero_le 1)⟩
    rw [hout] at hp
    cases hp
  due := by
    rw [hout, hline]
    exact .of_old fun f hf => absurd hf List.not_mem_nil
  own f hf := by
    rw [hline] at hf
    cases hf

/-- Of calls that are apart, what is left of the first is nothing to the second. -/
theorem Heard.ready {r' : Request} (h : Heard sbg u r s) (hsent : Sent sbg u r sent s)
    (hapart : Apart r (sbg.called.handle u r).2 r') : Ready sbg r' s := by
  by_cases hsame : r = r' ∧ ∃ cmd selector, r = .get cmd selector
  · obtain ⟨rfl, cmd, selector, rfl⟩ := hsame
    have hunit : s.unit = u := by rw [h.unit, wired_get_fst]
    have hsteady := steadyAt_get sbg s.unit cmd selector
    have hown : ∀ f ∈ s.line ++ sbg.wired.answers s.unit s.outbox,
        f = (sbg.wired.handle s.unit (.get cmd selector)).2 := by
      intro f hf
      rcases List.mem_append.1 hf with hf | hf
      · rw [h.line f hf, hunit]
      · obtain ⟨p, hp, rfl⟩ := List.mem_map.1 hf
        rw [h.outbox p hp]
    refine ⟨⟨?_, .inr hsteady⟩, .of_own hown, fun _ _ _ => (wired_get_fst sbg _ _ _).symm⟩
    rw [List.eq_replicate_of_mem h.outbox]
    exact .before [] _ (by simp) (.inr hsteady)
  · have hrefused : r'.accepts (sbg.wired.handle u r).2 = false :=
      accepts_apart sbg hapart fun heq => hsame ⟨heq.1, heq.2⟩
    have hidle : ∀ p ∈ s.outbox, sbg.wired.Idle r'.accepts s.unit p := by
      intro p hp
      obtain ⟨q, outbox, hout⟩ := List.exists_cons_of_ne_nil (List.ne_nil_of_mem hp)
      have hout' := hsent.outgoing
      rw [hout, h.unit] at hout'
      have hsteady := hout'.steadyAt hsent.once
      rw [h.outbox p hp, h.unit]
      exact ⟨congrArg Prod.fst hsteady, (congrArg (fun x => r'.accepts x.2) hsteady).trans hrefused⟩
    have hold : ∀ f ∈ s.line ++ sbg.wired.answers s.unit s.outbox, r'.accepts f = false := by
      intro f hf
      rcases List.mem_append.1 hf with hf | hf
      · rw [h.line f hf]
        exact hrefused
      · obtain ⟨p, hp, rfl⟩ := List.mem_map.1 hf
        exact (hidle p hp).refused
    refine ⟨⟨.start hidle, .inl (Nat.zero_le 1)⟩, .of_old hold, fun f hf htaken => ?_⟩
    rw [hold f (List.mem_append_left _ hf)] at htaken
    cases htaken

/-- A call is over. -/
theorem inv_finish {outcome : Outcome} (hcalls : ∀ c ∈ s.calls, c.sent ≤ c.request.retries)
    (hserves : sbg.called.Serves u₀ (s.calls.map Call.told) u)
    (hsent : Sent sbg u ex.request ex.sent s) (hbudget : ex.sent ≤ ex.request.retries)
    (hheard : outcome.answer.isSome = true →
      outcome = (sbg.called.handle u ex.request).2 ∧ Heard sbg u ex.request s) :
    Inv sbg u₀ (s.finish ex outcome) := by
  refine ⟨List.forall_mem_append.2 ⟨hcalls, List.forall_mem_singleton.2 hbudget⟩, ?_⟩
  refine .inr ⟨s.calls, ⟨ex.request, ex.sent, outcome⟩, u, rfl, hserves, ?_, fun hanswer => ?_⟩
  · exact hsent.congr rfl rfl
  · exact (hheard hanswer).imp_right fun h => h.congr rfl rfl rfl

/-- The next try, or the end of the tries. -/
theorem inv_tries (hcalls : ∀ c ∈ s.calls, c.sent ≤ c.request.retries)
    (hserves : sbg.called.Serves u₀ (s.calls.map Call.told) u)
    (hsent : Sent sbg u ex.request ex.sent s)
    (hdue : Due ex.request.accepts (sbg.wired.handle u ex.request).2
      (s.line ++ sbg.wired.answers u s.outbox))
    (hown : ∀ f ∈ s.line, ex.request.accepts f = true →
      s.unit = (sbg.wired.handle u ex.request).1)
    (hbudget : ex.sent + ex.left ≤ ex.request.retries) : Inv sbg u₀ (s.tries ex) := by
  have hle : ex.sent ≤ ex.request.retries := (Nat.le_add_right _ _).trans hbudget
  rw [Channel.tries]
  split
  · exact inv_finish hcalls hserves hsent hle (fun h => nomatch h)
  · next left hleft =>
    rw [Channel.attempt]
    split
    · refine inv_finish hcalls hserves ?_ ?_ (fun h => nomatch h)
      · exact hsent
      · exact hle
    · split
      · refine ⟨hcalls, u, hserves, ?_⟩
        exact {
          sent := hsent.congr rfl rfl
          due := hdue
          own := hown
          got := fun f hf => nomatch hf
          budget := by
            simp only [if_true]
            omega }
      · refine inv_finish hcalls hserves ?_ ?_ (fun h => nomatch h)
        · exact hsent
        · exact hle

/-- A frame that is routed reaches the waiter only if it is the unit's answer. -/
theorem Underway.resolve {f : Frame} (h : Underway sbg u s ex)
    (hf : ex.request.accepts f = true →
      f = (sbg.wired.handle u ex.request).2 ∧ Heard sbg u ex.request s) :
    Underway sbg u s
      { ex with got := if ex.got.isNone && ex.request.accepts f then some (.ok f) else ex.got } where
  sent := h.sent
  due := h.due
  own := h.own
  got g hg := by
    dsimp only at hg
    split_ifs at hg with hcond
    · obtain rfl : f = g := by simpa using hg
      exact hf (Bool.and_eq_true_iff.1 hcond).2
    · exact h.got g hg
  budget := h.budget

/-- The frame of a call is handed to the transport. -/
theorem Underway.write (h : Underway sbg u s ex)
    (hsteady : 1 < ex.request.retries → sbg.called.Steady ex.request)
    (hphase : ex.phase = .locking) :
    Underway sbg u (s.write ex) { ex with phase := .writing, sent := ex.sent + 1 } := by
  have hbudget := h.budget
  rw [if_pos hphase] at hbudget
  exact {
    sent := by
      refine ⟨h.sent.outgoing.send, ?_⟩
      rcases Nat.eq_zero_or_pos ex.sent with hzero | hpos
      · exact .inl (by rw [hzero])
      · exact .inr (steady_wired sbg (hsteady (by omega)) u)
    due := by
      change Due _ _ (s.line ++ sbg.wired.answers u (s.outbox ++ [ex.request]))
      rw [Device.answers, List.map_append, ← List.append_assoc]
      exact h.due.send
    own := h.own
    got := fun f hf => (h.got f hf).imp_right fun hheard =>
      ⟨hheard.unit, List.forall_mem_append.2 ⟨hheard.outbox, by simp⟩, hheard.line⟩
    budget := by
      rw [if_neg (by simp)]
      dsimp only
      omega }

/-- What happens to the call that holds the lock keeps the invariant. -/
theorem inv_stepCurrent (hsteady : ∀ r : Request, 1 < r.retries → sbg.called.Steady r)
    (hcalls : ∀ c ∈ s.calls, c.sent ≤ c.request.retries)
    (hserves : sbg.called.Serves u₀ (s.calls.map Call.told) u) (h : Underway sbg u s ex)
    {e : ChannelEvent} (hstep : s.stepCurrent ex e = some s') : Inv sbg u₀ s' := by
  have hbudget := h.budget
  have hle : ex.sent ≤ ex.request.retries := by omega
  -- a call that ends without an answer
  have hunheard : ∀ outcome : Outcome, outcome.answer = none → Inv sbg u₀ (s.finish ex outcome) :=
    fun outcome hnone => inv_finish hcalls hserves h.sent hle fun hsome => by simp [hnone] at hsome
  cases e with
  | takeWriteLock =>
    simp only [Channel.stepCurrent, Option.ite_none_right_eq_some, Option.some.injEq] at hstep
    obtain ⟨hlocking, rfl⟩ := hstep
    split
    · exact ⟨hcalls, u, hserves, h.write (hsteady ex.request) hlocking⟩
    · exact hunheard _ rfl
  | wrote =>
    simp only [Channel.stepCurrent, Option.ite_none_right_eq_some, Option.some.injEq] at hstep
    obtain ⟨hwriting, rfl⟩ := hstep
    refine ⟨hcalls, u, hserves, h.congr rfl rfl rfl rfl rfl h.got ?_⟩
    simpa [hwriting] using hbudget
  | stall =>
    simp only [Channel.stepCurrent, Option.ite_none_right_eq_some, Option.some.injEq] at hstep
    obtain ⟨-, rfl⟩ := hstep
    exact hunheard _ rfl
  | timeout =>
    simp only [Channel.stepCurrent, Option.ite_none_right_eq_some, Option.some.injEq] at hstep
    obtain ⟨-, rfl⟩ := hstep
    exact inv_tries hcalls hserves h.sent h.due h.own (by omega)
  | wake =>
    simp only [Channel.stepCurrent, Option.ite_none_right_eq_some, Option.map_eq_some_iff] at hstep
    obtain ⟨-, result, hgot, rfl⟩ := hstep
    cases result with
    | error _ => exact hunheard _ rfl
    | ok f =>
      obtain ⟨rfl, hheard⟩ := h.got f hgot
      refine inv_finish hcalls hserves h.sent hle fun _ => ⟨?_, hheard⟩
      exact outcome_wired sbg u ex.request
  | cancel =>
    obtain rfl := Option.some.inj hstep
    exact hunheard _ rfl
  | connect | drop | call | leave | acquire | transmit | deliver | lose | other =>
    exact nomatch hstep

/-- A call that is polite begins with nothing under way that it would take for its answer. -/
theorem inv_acquire {queue : List Request} (h : Inv sbg u₀ s) (hnone : s.current = none)
    (hpolite : politeTo s r = true) :
    Inv sbg u₀ ({ s with queue := queue }.tries { request := r, left := r.retries }) := by
  obtain ⟨hcalls, hresting⟩ := h
  rw [hnone] at hresting
  have hready : Ready sbg r s := by
    simp only [politeTo, Bool.or_eq_true, decide_eq_true_eq, Option.any_eq_true, Bool.and_eq_true]
      at hpolite
    rcases hpolite with ⟨hout, hline⟩ | ⟨last, hlast, hanswer, hapart⟩
    · exact ready_of_quiet hout hline
    · obtain ⟨hempty, -⟩ | ⟨calls, last', u, heq, -, hended⟩ := hresting
      · rw [hempty] at hlast
        cases hlast
      · obtain rfl : last' = last := by simpa [heq] using hlast
        obtain ⟨houtcome, hheard⟩ := hended.heard hanswer
        rw [houtcome] at hapart
        exact hheard.ready hended.sent hapart
  refine inv_tries (s := { s with queue := queue }) hcalls hresting.serves ?_ hready.due hready.own
    (Nat.zero_add _).le
  exact hready.sent.congr rfl rfl

/-! ### Every step -/

/-- Where the last call that is over has ended, and where the one that holds the lock goes on, is
told by what is under way. -/
theorem Inv.imp (h : Inv sbg u₀ s) (hcalls : s'.calls = s.calls) (hcurrent : s'.current = s.current)
    (hunderway : ∀ u ex, Underway sbg u s ex → Underway sbg u s' ex)
    (hresting : Resting sbg u₀ s → Resting sbg u₀ s') : Inv sbg u₀ s' := by
  obtain ⟨hsent, hgoes⟩ := h
  refine ⟨hcalls ▸ hsent, ?_⟩
  rw [hcurrent, hcalls]
  cases hex : s.current with
  | none =>
    rw [hex] at hgoes
    exact hresting hgoes
  | some ex =>
    rw [hex] at hgoes
    obtain ⟨u, hserves, hgoes⟩ := hgoes
    exact ⟨u, hserves, hunderway u ex hgoes⟩

/-- Whether the link is up and who waits for the lock is nothing to it. -/
theorem Inv.surroundings (h : Inv sbg u₀ s) (connected : Bool) (queue : List Request) :
    Inv sbg u₀ { s with connected := connected, queue := queue } := by
  refine h.imp rfl rfl (fun u ex hu => ?_) fun hr => hr.congr rfl rfl rfl rfl
  exact hu.congr rfl rfl rfl rfl rfl hu.got hu.budget

/-- The link is lost. -/
theorem Inv.fail (h : Inv sbg u₀ s) : Inv sbg u₀ { s with
    current := s.current.map fun ex => { ex with got := ex.got.or (some (.error ())) } } := by
  obtain ⟨hcalls, hgoes⟩ := h
  refine ⟨hcalls, ?_⟩
  cases hex : s.current with
  | none =>
    rw [hex] at hgoes
    exact hgoes.congr rfl rfl rfl rfl
  | some ex =>
    rw [hex] at hgoes
    obtain ⟨u, hserves, hgoes⟩ := hgoes
    have hgot : ∀ f, ex.got.or (some (.error ())) = some (.ok f) → ex.got = some (.ok f) := by
      intro f hf
      cases hgot : ex.got <;> simp_all
    exact ⟨u, hserves, hgoes.congr rfl rfl rfl rfl rfl (fun f hf => hgoes.got f (hgot f hf))
      hgoes.budget⟩

/-- A frame of the transport reaches the unit. -/
theorem Inv.handled {p : Request} {outbox : List Request} (h : Inv sbg u₀ s)
    (hout : s.outbox = p :: outbox) :
    Inv sbg u₀ (({ s with outbox := outbox } : Channel υ).handled sbg p) := by
  refine h.imp rfl rfl (fun u ex hu => hu.handled hout) fun hr => hr.imp rfl (fun hno => ?_) ?_
  · rw [hout] at hno
    cases hno
  · exact fun u last hl => ⟨hl.sent.handled hout,
      fun ha => (hl.heard ha).imp_right fun hh => hh.handled hl.sent hout⟩

/-- A frame of the transport is lost. -/
theorem Inv.lose {p : Request} {outbox : List Request} (h : Inv sbg u₀ s)
    (hout : s.outbox = p :: outbox) : Inv sbg u₀ { s with outbox := outbox } := by
  refine h.imp rfl rfl (fun u ex hu => hu.lose hout) fun hr => hr.imp rfl (fun hno => ?_) ?_
  · rw [hout] at hno
    cases hno
  · exact fun u last hl => ⟨hl.sent.lose hout, fun ha => (hl.heard ha).imp_right fun hh =>
      hh.lose (hout ▸ List.sublist_cons_self _ _) (List.Sublist.refl _)⟩

/-- An answer is gone from the line. -/
theorem Inv.tail {f : Frame} {line : List Frame} (h : Inv sbg u₀ s) (hline : s.line = f :: line) :
    Inv sbg u₀ { s with line := line } := by
  refine h.imp rfl rfl (fun u ex hu => hu.tail hline)
    fun hr => hr.imp rfl (fun hout => ⟨rfl, hout⟩) ?_
  exact fun u last hl => ⟨hl.sent.congr rfl rfl, fun ha =>
    (hl.heard ha).imp_right fun hh =>
      hh.lose (List.Sublist.refl _) (hline ▸ List.sublist_cons_self _ _)⟩

/-- The first answer of the line is routed. -/
theorem Inv.deliver {f : Frame} {line : List Frame} (h : Inv sbg u₀ s)
    (hline : s.line = f :: line) : Inv sbg u₀ ({ s with line := line }.resolve f) := by
  have htail := h.tail hline
  rcases Option.eq_none_or_eq_some s.current with hex | ⟨ex, hex⟩
  · have hsame : ({ s with line := line } : Channel υ).resolve f = { s with line := line } := by
      simp [Channel.resolve, hex]
    rwa [hsame]
  · obtain ⟨hcalls, hgoes⟩ := h
    rw [hex] at hgoes
    obtain ⟨u, hserves, hgoes⟩ := hgoes
    have hnext := (hgoes.tail hline).resolve (f := f) fun htaken => by
      have hdue := hgoes.due
      rw [hline] at hdue
      obtain ⟨heq, hrest⟩ := hdue.take htaken
      have hunit := hgoes.own f (hline ▸ List.mem_cons_self) htaken
      rw [heq] at htaken
      refine ⟨heq, hunit, ?_, fun g hg => hrest g (List.mem_append_left _ hg)⟩
      refine hgoes.sent.outgoing.eq_of_accepts fun g hg => ?_
      rw [hrest g (List.mem_append_right _ hg)]
      exact htaken
    refine ⟨hcalls, ?_⟩
    simp only [Channel.resolve, hex, Option.map_some]
    exact ⟨u, hserves, hnext.congr rfl rfl rfl rfl rfl hnext.got hnext.budget⟩

/-- A frame that is routed is no answer. -/
theorem Inv.other {f : Frame} (h : Inv sbg u₀ s) (hf : ∀ r : Request, r.accepts f = false) :
    Inv sbg u₀ (s.resolve f) := by
  have hcurrent : (s.resolve f).current = s.current := by
    cases hex : s.current <;> simp [Channel.resolve, hex, hf]
  have heq : s.resolve f = s := by
    rw [show s.resolve f = { s with current := (s.resolve f).current } from rfl, hcurrent]
  rwa [heq]

/-- Every step keeps the invariant. -/
theorem inv_step (hsteady : ∀ r : Request, 1 < r.retries → sbg.called.Steady r) (h : Inv sbg u₀ s)
    {e : ChannelEvent} (hpolite : polite s e = true) (hstep : s.step sbg e = some s') :
    Inv sbg u₀ s' := by
  -- what the call that holds the lock does
  have hown : (s.current.bind fun ex => s.stepCurrent ex e) = some s' → Inv sbg u₀ s' := by
    intro hstep
    obtain ⟨ex, hex, hstep⟩ := Option.bind_eq_some_iff.1 hstep
    obtain ⟨hcalls, hgoes⟩ := h
    rw [hex] at hgoes
    obtain ⟨u, hserves, hgoes⟩ := hgoes
    exact inv_stepCurrent hsteady hcalls hserves hgoes hstep
  cases e with
  | connect =>
    simp only [Channel.step, Option.ite_none_left_eq_some, Option.some.injEq] at hstep
    obtain ⟨-, rfl⟩ := hstep
    exact h.surroundings true s.queue
  | drop =>
    simp only [Channel.step, Option.ite_none_right_eq_some, Option.some.injEq] at hstep
    obtain ⟨-, rfl⟩ := hstep
    exact h.fail.surroundings false s.queue
  | call r =>
    obtain rfl := Option.some.inj hstep
    exact h.surroundings s.connected (s.queue ++ [r])
  | leave i =>
    simp only [Channel.step, Option.ite_none_right_eq_some, Option.some.injEq] at hstep
    obtain ⟨-, rfl⟩ := hstep
    exact h.surroundings s.connected (s.queue.eraseIdx i)
  | acquire =>
    simp only [Channel.step] at hstep
    split at hstep
    · next r queue hnone hqueue =>
      obtain rfl := Option.some.inj hstep
      exact inv_acquire h hnone (by simpa [polite, hqueue] using hpolite)
    · exact nomatch hstep
  | transmit arrives =>
    simp only [Channel.step] at hstep
    split at hstep
    · next r outbox hout =>
      obtain rfl := Option.some.inj hstep
      cases arrives with
      | false => exact h.lose hout
      | true => exact h.handled hout
    · exact nomatch hstep
  | deliver =>
    simp only [Channel.step] at hstep
    split at hstep
    · next f line hline =>
      simp only [Option.ite_none_right_eq_some, Option.some.injEq] at hstep
      obtain ⟨-, rfl⟩ := hstep
      exact h.deliver hline
    · exact nomatch hstep
  | lose =>
    simp only [Channel.step, Option.ite_none_left_eq_some, Option.some.injEq] at hstep
    obtain ⟨hne, rfl⟩ := hstep
    obtain ⟨f, line, hline⟩ := List.exists_cons_of_ne_nil hne
    rw [hline]
    exact h.tail hline
  | other f =>
    simp only [Channel.step, Option.ite_none_right_eq_some, Option.some.injEq] at hstep
    obtain ⟨⟨-, hother⟩, rfl⟩ := hstep
    exact h.other (accepts_other hother)
  | takeWriteLock | wrote | stall | timeout | wake | cancel => exact hown hstep

/-- Under any timing, loss and resending, with calls that are polite : the calls that are over are
served as if the unit had handled each at once, a call that got no answer perhaps not at all. It is
sent at most as often as it may be. -/
theorem commands_atomic (sbg : SbgUnit υ)
    (hsteady : ∀ r : Request, 1 < r.retries → sbg.called.Steady r) {u₀ : υ} {s : Channel υ}
    (h : Reachable (guarded (Channel.step sbg) polite) { unit := u₀ } s) :
    (∀ c ∈ s.calls, c.sent ≤ c.request.retries) ∧
      ∃ u, sbg.called.Serves u₀ (s.calls.map Call.told) u ∧ match s.current with
        | none => s.unit = u
        | some ex => s.unit = u ∨ s.unit = (sbg.called.handle u ex.request).1 := by
  have hinv : Inv sbg u₀ s := by
    refine h.invariant (Inv sbg u₀) ⟨by simp, .inl ⟨rfl, rfl, rfl⟩⟩ ?_
    intro t e t' _ ht hstep
    obtain ⟨hpolite, hstep⟩ := guarded_eq_some.1 hstep
    exact inv_step hsteady ht hpolite hstep
  obtain ⟨hcalls, hgoes⟩ := hinv
  refine ⟨hcalls, ?_⟩
  cases hex : s.current with
  | none =>
    rw [hex] at hgoes
    exact ⟨s.unit, hgoes.serves, rfl⟩
  | some ex =>
    rw [hex] at hgoes
    obtain ⟨u, hserves, hgoes⟩ := hgoes
    exact ⟨u, hserves, hgoes.sent.unit_eq⟩

/-- A unit with one setting. -/
def oneSetting : SbgUnit (List UInt8) where
  report u _ _ := .ok u
  code_ne := by simp
  apply _ _ payload := (payload, 0)

/-- A setting that leaves the transport behind the first try, so it is sent twice, and is read back
while its second frame is still in the transport. -/
def setThenRead : List ChannelEvent :=
  let setting : Command := ⟨10, by decide⟩
  [.connect, .call (.set setting [4]), .call (.get setting []), .acquire, .takeWriteLock, .wrote,
    .timeout, .transmit true, .takeWriteLock, .wrote, .deliver, .wake, .acquire, .takeWriteLock,
    .transmit true, .transmit true, .deliver, .wrote, .deliver, .wake]

theorem commands_atomic_setThenRead : ∃ s : Channel (List UInt8),
    run (guarded (Channel.step oneSetting) polite) { unit := [0] } setThenRead = some s ∧
      s.calls.map Call.outcome = [.acked, .reply [4]] ∧
      (∀ c ∈ s.calls, c.sent ≤ c.request.retries) ∧
        ∃ u, oneSetting.called.Serves [0] (s.calls.map Call.told) u ∧ match s.current with
          | none => s.unit = u
          | some ex => s.unit = u ∨ s.unit = (oneSetting.called.handle u ex.request).1 := by
  have hsteady : ∀ r : Request, 1 < r.retries → oneSetting.called.Steady r := by
    rintro (_ | _) - u <;> rfl
  exact ⟨_, rfl, rfl, commands_atomic oneSetting hsteady ⟨setThenRead, rfl⟩⟩

end Sbg

end Mtrtk
