import Mtrtk.BaseMode

/-!
# The verification of a fixed site

The operations of `BaseModeManager` take turns under `_apply_lock`, the handlers run at
every await, and the receiver answers each TMODE write in any way. The database answers
anything : other processes write to it.

`VerifyInv` holds in every state that is reached (`verifyInv_of_lockStep`). A site stays
applied over a write of another position, until that is taken. Each of the two ways to
leave a site clears the verification : a write without a position before it is sent, a
fixed position once it is taken.
-/

namespace Mtrtk

namespace BaseModeManager

/-- The operations that take `_apply_lock`. -/
inductive Operation [Pyubx2] : BaseM Unit → Prop
  | applyMode : Operation applyMode
  | restartSurveyIn : Operation (discard restartSurveyIn)
  | activateSite (name : String) : Operation (discard (activateSite name))
  | pollActiveSite : Operation pollActiveSite

/-- What runs between two awaits : `on_1005`, `on_fix`, and the clock. -/
inductive Handler [Pyrtcm] (m : BaseModeManager) : BaseModeManager → Prop
  | on1005 (frame : Frame) : Handler m (m.on1005 frame)
  | onFix (fixType : ℕ) : Handler m (m.onFix fixType)
  | tick (t : ℚ) (ht : m.clock ≤ t) : Handler m { m with clock := t }

/-- The answer to a write, and what it leaves of the manager. -/
def answered (m : BaseModeManager) (items : CfgItems) (answer : Answer) : BaseModeManager :=
  if answer = .ack then { m with accepted := some items } else m

/-- The answers to a call : any, from the receiver and from the database. -/
def Replies : (q : BaseCall) → q.Reply → BaseModeManager → BaseModeManager → Prop
  | .applyItems items, answer, m, m' => m' = m.answered items answer
  | .get _, _, m, m' => m' = m
  | .active, _, m, m' => m' = m
  | .activate _, _, m, m' => m' = m

/-- A broadcast position agrees with a site on every axis. -/
def Agrees (ecef : Ecef1005) (site : Site) : Prop :=
  |ecef.x - site.x| ≤ siteToleranceM ∧ |ecef.y - site.y| ≤ siteToleranceM ∧
    |ecef.z - site.z| ≤ siteToleranceM

/-- The applied site is the one the receiver is on, and what is verified is the last 1005. -/
structure VerifyInv [Pyubx2] (m : BaseModeManager) : Prop where
  mode : ∀ site, m.appliedSite = some site → m.mode = .fixed
  accepted : ∀ site, m.appliedSite = some site → m.accepted = some site.fixedItems
  agrees : m.verifyState = some .verified →
    ∃ site ecef, m.appliedSite = some site ∧ m.since = some ecef ∧ Agrees ecef site

/-- No site is applied, and nothing is verified. -/
def Cleared (m : BaseModeManager) : Prop := m.appliedSite = none ∧ m.verifyState = none

theorem Cleared.verifyInv [Pyubx2] {m : BaseModeManager} (h : m.Cleared) : m.VerifyInv where
  mode := fun _ hs => absurd (hs.symm.trans h.1) (Option.some_ne_none _)
  accepted := fun _ hs => absurd (hs.symm.trans h.1) (Option.some_ne_none _)
  agrees := fun hv => absurd (hv.symm.trans h.2) (Option.some_ne_none _)

/-! ## Handlers -/

section Handlers

variable {m m' : BaseModeManager}

theorem withinTolerance_iff {ecef : Ecef1005} {site : Site} :
    withinTolerance (ecef.x - site.x) (ecef.y - site.y) (ecef.z - site.z) = true ↔
      Agrees ecef site := by
  simp [withinTolerance, Agrees, and_assoc]

/-- What is verified after a comparison was within the tolerance, and nothing else of what the
invariant is about moves. -/
theorem compareSite_spec (m : BaseModeManager) (site : Site) (dx dy dz : ℚ) :
    (m.compareSite site dx dy dz).appliedSite = m.appliedSite ∧
      (m.compareSite site dx dy dz).mode = m.mode ∧
      (m.compareSite site dx dy dz).accepted = m.accepted ∧
      (m.compareSite site dx dy dz).since = m.since ∧
      ((m.compareSite site dx dy dz).verifyState = some .verified ↔
        withinTolerance dx dy dz = true) := by
  unfold compareSite
  split_ifs with hw hv hm
  all_goals simp_all [publish]

theorem on1005_cases [Pyrtcm] (m : BaseModeManager) (frame : Frame) :
    m.on1005 frame = m ∨
      ∃ ecef, (m.appliedSite = none ∨ m.mode ≠ .fixed) ∧ m.on1005 frame = m.hear ecef ∨
        ∃ site, m.appliedSite = some site ∧ m.on1005 frame =
          (m.hear ecef).compareSite site (ecef.x - site.x) (ecef.y - site.y)
            (ecef.z - site.z) := by
  unfold on1005
  split
  · exact .inl rfl
  · next ecef _ hs => exact .inr ⟨ecef, .inl ⟨.inl hs, rfl⟩⟩
  · next ecef site _ hs =>
    split_ifs with hm
    · exact .inr ⟨ecef, .inl ⟨.inr hm, rfl⟩⟩
    · exact .inr ⟨ecef, .inr ⟨site, hs, rfl⟩⟩

theorem Cleared.handler [Pyrtcm] (h : m.Cleared) (hm : Handler m m') : m'.Cleared := by
  rcases hm with ⟨frame⟩ | ⟨fixType⟩ | ⟨t, -⟩
  · rcases on1005_cases m frame with heq | ⟨ecef, ⟨-, heq⟩ | ⟨site, hs, -⟩⟩
    · rwa [heq]
    · rw [heq]
      exact h
    · exact absurd (hs.symm.trans h.1) (Option.some_ne_none _)
  · simpa [onFix, h.1] using h
  · exact h

theorem VerifyInv.on1005 [Pyubx2] [Pyrtcm] (h : m.VerifyInv) (frame : Frame) :
    (m.on1005 frame).VerifyInv := by
  rcases on1005_cases m frame with heq | ⟨ecef, ⟨hno, heq⟩ | ⟨site, hs, heq⟩⟩ <;> rw [heq]
  · exact h
  · refine ⟨h.mode, h.accepted, fun hv => ?_⟩
    obtain ⟨site, -, hsite, -⟩ := h.agrees hv
    rcases hno with hno | hno
    · exact absurd (hsite.symm.trans hno) (Option.some_ne_none _)
    · exact absurd (h.mode site hsite) hno
  · obtain ⟨happ, hmode, hacc, hsince, hver⟩ := compareSite_spec (m.hear ecef) site
      (ecef.x - site.x) (ecef.y - site.y) (ecef.z - site.z)
    refine ⟨fun s hs' => ?_, fun s hs' => ?_, fun hv => ?_⟩
    · exact hmode.trans (h.mode s (happ ▸ hs'))
    · exact hacc.trans (h.accepted s (happ ▸ hs'))
    · exact ⟨site, ecef, happ.trans hs, hsince, withinTolerance_iff.1 (hver.1 hv)⟩

theorem VerifyInv.onFix [Pyubx2] (h : m.VerifyInv) (fixType : ℕ) : (m.onFix fixType).VerifyInv := by
  unfold BaseModeManager.onFix
  split
  · exact h
  · split_ifs
    · exact h
    · exact h
    · exact ⟨h.mode, h.accepted, fun hv => absurd (Option.some.inj hv) (by decide)⟩

theorem VerifyInv.handler [Pyubx2] [Pyrtcm] (h : m.VerifyInv) (hm : Handler m m') :
    m'.VerifyInv := by
  rcases hm with ⟨frame⟩ | ⟨fixType⟩ | ⟨t, -⟩
  · exact h.on1005 frame
  · exact h.onFix fixType
  · exact ⟨h.mode, h.accepted, h.agrees⟩

end Handlers

/-! ## Operations -/

section Operations

variable [Pyubx2] [Pyrtcm] {m : BaseModeManager}

/-- Where every await of a coroutine keeps the invariant, and it ends in `post`. -/
abbrev Ensures {α : Type} (c : BaseM α) (post : α → BaseModeManager → Prop)
    (m : BaseModeManager) : Prop :=
  c.wp VerifyInv Handler Replies post m

/-- A write : what the handlers keep is known when the answer is in. -/
theorem ensures_applyItems {items : CfgItems} {post : Answer → BaseModeManager → Prop}
    (P : BaseModeManager → Prop) (hP : P m) (hinv : P m → m.VerifyInv)
    (hkeep : ∀ t u, P t → Handler t u → P u)
    (hpost : ∀ t, P t → ∀ answer, post answer (t.answered items answer)) :
    Ensures (applyItems items) post m :=
  Co.wp_ask P (hinv hP) hP hkeep fun t ht answer _ hu => hu ▸ hpost t ht answer

/-- A look at the database. -/
theorem ensures_ask {q : BaseCall} {post : q.Reply → BaseModeManager → Prop}
    (hq : ∀ r t u, Replies q r t u → u = t) (h : m.VerifyInv)
    (hpost : ∀ r t, t.VerifyInv → post r t) :
    Ensures (Co.ask q : BaseM q.Reply) post m :=
  Co.wp_ask VerifyInv h h (fun _ _ => VerifyInv.handler) fun t ht r u hu =>
    hq r t u hu ▸ hpost r t ht

theorem ensures_sitesGet {name : String} {post : Option Site → BaseModeManager → Prop}
    (h : m.VerifyInv) (hpost : ∀ r t, t.VerifyInv → post r t) :
    Ensures (sitesGet name) post m :=
  ensures_ask (fun _ _ _ hu => hu) h hpost

theorem ensures_sitesActive {post : Option Site → BaseModeManager → Prop} (h : m.VerifyInv)
    (hpost : ∀ r t, t.VerifyInv → post r t) : Ensures sitesActive post m :=
  ensures_ask (fun _ _ _ hu => hu) h hpost

theorem ensures_sitesActivate {name : String} {post : Option Site → BaseModeManager → Prop}
    (h : m.VerifyInv) (hpost : ∀ r t, t.VerifyInv → post r t) :
    Ensures (sitesActivate name) post m :=
  ensures_ask (fun _ _ _ hu => hu) h hpost

/-- A write without a position leaves nothing verified, however it is answered. -/
theorem ensures_applyTmode {items : CfgItems} {reason : Option String}
    {post : Bool → BaseModeManager → Prop} (hpost : ∀ b t, t.Cleared → post b t) :
    Ensures (applyTmode items reason) post m := by
  simp only [Ensures, applyTmode, Co.wp_bind, Co.wp_modify]
  refine ensures_applyItems Cleared ⟨rfl, rfl⟩ Cleared.verifyInv (fun _ _ => Cleared.handler)
    fun t ht answer => ?_
  rcases answer with _ | _ | _
  all_goals exact hpost _ _ ht

/-- A fixed position keeps the invariant, however it is answered. -/
theorem ensures_applyFixed {site : Site} {post : Bool → BaseModeManager → Prop}
    (h : m.VerifyInv) (hpost : ∀ b t, t.VerifyInv → post b t) :
    Ensures (applyFixed site) post m := by
  simp only [Ensures, applyFixed, Co.wp_bind]
  refine ensures_applyItems VerifyInv h id (fun _ _ => VerifyInv.handler) fun t ht answer => ?_
  rcases answer with _ | _ | _
  · refine hpost _ _ ⟨fun s hs => rfl, fun s hs => ?_, fun hv => ?_⟩
    · obtain rfl : site = s := Option.some.inj hs
      rfl
    · exact absurd hv.symm (Option.some_ne_none _)
  · exact hpost _ _ ⟨ht.mode, ht.accepted, ht.agrees⟩
  · exact hpost _ _ ⟨ht.mode, ht.accepted, ht.agrees⟩

theorem ensures_resolveSite {post : Except KeyError (Option Site) → BaseModeManager → Prop}
    (h : m.VerifyInv) (hpost : ∀ r t, t.VerifyInv → post r t) : Ensures resolveSite post m := by
  simp only [Ensures, resolveSite, Co.wp_bind, Co.wp_get]
  split
  · simp only [Co.wp_bind]
    exact ensures_sitesActive h fun _ t ht => hpost _ t ht
  · simp only [Co.wp_bind]
    refine ensures_sitesGet h fun named t ht => ?_
    split
    · simp only [Co.wp_bind]
      exact ensures_sitesActive ht fun _ u hu => hpost _ u hu
    · split_ifs
      · exact hpost _ t ht
      · simp only [Co.wp_bind]
        refine ensures_sitesActivate ht fun site u hu => ?_
        split <;> exact hpost _ u hu

theorem ensures_applyMode (h : m.VerifyInv) : Ensures applyMode (fun _ => VerifyInv) m := by
  have h' : { m with nakSite := none }.VerifyInv := ⟨h.mode, h.accepted, h.agrees⟩
  simp only [Ensures, applyMode, Co.wp_bind, Co.wp_modify, Co.wp_get]
  split
  · simp only [Co.wp_bind]
    refine ensures_resolveSite h' fun r t ht => ?_
    split
    · exact ht
    · simp only [Co.wp_bind, Co.wp_modify]
      split
      · simp only [Co.wp_discard]
        exact ensures_applyFixed ⟨ht.mode, ht.accepted, ht.agrees⟩ fun _ _ hu => hu
      · simp only [Co.wp_bind, Co.wp_modify, Co.wp_get, Co.wp_discard]
        exact ensures_applyTmode fun _ _ hu => hu.verifyInv
  · simp only [Co.wp_bind, Co.wp_modify, Co.wp_get]
    refine ensures_sitesActive h' fun active t ht => ?_
    split
    all_goals
      simp only [Co.wp_bind, Co.wp_get, Co.wp_discard]
      exact ensures_applyTmode fun _ _ hu => hu.verifyInv

theorem ensures_restartSurveyIn :
    Ensures restartSurveyIn (fun _ => VerifyInv) m := by
  simp only [Ensures, restartSurveyIn, Co.wp_bind, Co.wp_modify]
  refine ensures_applyTmode fun stopped t ht => ?_
  split_ifs
  · exact Cleared.verifyInv ht
  · simp only [Co.wp_bind, Co.wp_modify, Co.wp_get]
    refine ensures_applyTmode fun started u hu => ?_
    split_ifs
    · exact Cleared.verifyInv hu
    · exact hu.verifyInv

theorem ensures_activateSite {name : String} (h : m.VerifyInv) :
    Ensures (activateSite name) (fun _ => VerifyInv) m := by
  simp only [Ensures, activateSite, Co.wp_bind]
  refine ensures_sitesActivate h fun site t ht => ?_
  split
  · exact ht
  · simp only [Co.wp_bind, Co.wp_discard]
    exact ensures_applyFixed ht fun _ _ hu => hu

theorem ensures_pollActiveSite (h : m.VerifyInv) :
    Ensures pollActiveSite (fun _ => VerifyInv) m := by
  simp only [Ensures, pollActiveSite, Co.wp_bind]
  refine ensures_sitesActive h fun active t ht => ?_
  split
  · exact ht
  · simp only [Co.wp_bind, Co.wp_get]
    split_ifs
    · simp only [Co.wp_discard]
      exact ensures_applyFixed ht fun _ _ hu => hu
    · exact ht

theorem Operation.ensures {c : BaseM Unit} (hc : Operation c) (h : m.VerifyInv) :
    Ensures c (fun _ => VerifyInv) m := by
  rcases hc with _ | _ | ⟨name⟩ | _
  · exact ensures_applyMode h
  · exact (Co.wp_discard _).2 ensures_restartSurveyIn
  · exact (Co.wp_discard _).2 (ensures_activateSite h)
  · exact ensures_pollActiveSite h

end Operations

/-! ## Every interleaving -/

/-- A step of the manager : an operation takes the lock, a call is answered, or a handler
runs. -/
abbrev Step [Pyubx2] [Pyrtcm] :=
  LockStep {c : BaseM Unit | Operation c} Handler Replies

/-- From a new manager on, an applied site is the position the receiver accepted last, and
what is verified is an applied site that agrees with the last 1005 handled since it was
applied. The first holds over a write too : `accepted` moves when its answer is in. -/
theorem verification_sound [Pyubx2] [Pyrtcm] {mode : BaseMode} {minDurationS : ℤ}
    {accLimitM clock : ℚ} {activeSiteName : Option String}
    {w : Locked BaseModeManager BaseCall BaseCall.Reply}
    (h : Relation.ReflTransGen Step
      { state := init mode minDurationS accLimitM activeSiteName clock } w) :
    (∀ site, w.state.appliedSite = some site → w.state.accepted = some site.fixedItems) ∧
      (w.state.verified = true → ∃ site ecef, w.state.appliedSite = some site ∧
        w.state.since = some ecef ∧ Agrees ecef site) := by
  have hinv : w.state.VerifyInv := lockStep_invariant VerifyInv
    (fun _ hc _ hm => Operation.ensures hc hm) (fun _ _ => VerifyInv.handler)
    (Cleared.verifyInv ⟨rfl, rfl⟩) h
  exact ⟨hinv.accepted, fun hv => hinv.agrees (by simpa [verified] using hv)⟩

/-- `val2sphp` : what the scale leaves over is rounded to hundredths of it. -/
@[reducible] def sphp : Pyubx2 where
  val2sphp value scale :=
    let std := (value / scale).num.tdiv (value / scale).den
    (std, pyRound ((value / scale - std) * 100))

/-- A field of a 1005 by its bit position and length, two's complement if `signed`. -/
def field1005 (raw : List UInt8) (signed : Bool) (pos len : ℕ) : ℤ :=
  let bits : ℕ := ((raw.drop 3).take 19).foldl (fun n b => n * 256 + b.toNat) 0
  let v : ℕ := bits / 2 ^ (152 - pos - len) % 2 ^ len
  if signed && 2 ^ (len - 1) ≤ v then (v : ℤ) - 2 ^ len else v

/-- The fields of a 1005 as RTCM 3 lays them out. -/
@[reducible] def rtcm1005 : Pyrtcm where
  parse raw :=
    if raw.length ≠ 25 then none
    else
      some
        { stationId := (field1005 raw false 12 12).toNat
          gps := field1005 raw false 30 1 = 1
          glonass := field1005 raw false 31 1 = 1
          galileo := field1005 raw false 32 1 = 1
          x := field1005 raw true 34 38 / 10000
          y := field1005 raw true 74 38 / 10000
          z := field1005 raw true 114 38 / 10000 }

def roof : Site where
  id := some 1
  name := "roof"
  x := 39801234567 / 10000
  y := 1234567890 / 10000
  z := 49667890123 / 10000
  active := true

/-- The 1005 of a base on `roof`. -/
def roof1005 : Frame where
  proto := .rtcm3
  raw := [0xD3, 0x00, 0x13, 0x3E, 0xD0, 0x00, 0x03, 0x89, 0x44, 0x56, 0xA4, 0x87, 0x00, 0x49,
    0x96, 0x02, 0xD2, 0x0B, 0x90, 0x6F, 0xDB, 0xCB, 0xBF, 0xF0, 0x67]

/-- A base that surveys in, is put on `roof` and hears its 1005. -/
def roofHeard : BaseModeManager :=
  letI := sphp
  letI := rtcm1005
  let m := init .surveyIn 300 2 none 0
  (({ m with accepted := some roof.fixedItems }.sitOn roof).announce (some "roof")).on1005 roof1005

theorem verification_sound_roof : roofHeard.verified = true ∧
    ∃ site ecef, roofHeard.appliedSite = some site ∧ roofHeard.since = some ecef ∧
      Agrees ecef site := by
  let _ := sphp
  let _ := rtcm1005
  have hv : roofHeard.verified = true := by decide +kernel
  have hsit := Relation.ReflTransGen.single (.start rfl (.activateSite "roof") :
    Step { state := init .surveyIn 300 2 none 0 } _)
  have hact := hsit.tail (.answer (r := some roof) rfl rfl)
  have hack := hact.tail (.answer (r := Answer.ack) rfl rfl)
  exact ⟨hv, (verification_sound (hack.tail (.handle (.on1005 roof1005)))).2 hv⟩

end BaseModeManager

end Mtrtk
