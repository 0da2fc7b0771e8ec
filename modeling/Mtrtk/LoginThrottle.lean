import Mathlib.Data.Rat.Floor
import Mtrtk.TaskPool
import Mtrtk.Text
import Mtrtk.TokenBucket

/-!
# The login

`web/auth.py` : a wrong password takes a token from a bucket that the whole daemon has one of
(`LoginThrottle`). Where there is none left, a login is refused before the password is looked at,
and told when to come back.

Logins run in turns, with anything else in between (`Turn`). Of `login` the only await is the delay
after a failure, so that a token that was seen is taken by the failure it was seen for
(`login_open`, `login_refused`, `login_right`, `login_wrong`). `App.trace` is what the logins have
seen, the last first. `Throttled` is what holds of it between the turns : how many failures an
interval has room for, and from when on a login that was refused is not refused again
(`login_throttled`).

The clock is read through `_now` only. The instant of a comparison is not read by the source : it
lies between the readings before and after it.
-/

namespace Mtrtk

namespace Auth

/-- `FAILED_LOGIN_DELAY_S`. -/
def failedLoginDelayS : ℚ := 1

/-- `LOGIN_BURST`. -/
def loginBurst : ℚ := 10

/-- `LOGIN_REFILL_S`. -/
def loginRefillS : ℚ := 6

/-- `TOO_MANY_LOGINS.format(s=wait)`. -/
def tooManyLogins (wait : ℤ) : String := s!"too many failed logins: try again in {wait} s"

/-! ## The throttle -/

abbrev LoginThrottle := Bucket ℚ

namespace LoginThrottle

/-- `LoginThrottle()`. -/
def new (now : ℚ) : LoginThrottle := ⟨loginBurst, now⟩

/-- `_refill`. -/
def refill (now : ℚ) (throttle : LoginThrottle) : LoginThrottle :=
  Bucket.refill loginBurst loginRefillS now throttle

/-- What `retry_after` returns after it has refilled. -/
def wait (throttle : LoginThrottle) : Option ℤ :=
  if 1 ≤ throttle.tokens then none else some (max 1 ⌈(1 - throttle.tokens) * loginRefillS⌉)

end LoginThrottle

/-! ## A login -/

/-- A look at the throttle with what it said, or a comparison of a password with the real one. -/
inductive LoginEvent
  | looked (time : ℚ) (wait : Option ℤ)
  | compared (time : ℚ) (given real : Str)
  deriving DecidableEq

/-- The app : the password of its settings, the throttle of its state, and what the logins have
done. -/
structure App where
  webPassword : Option Str
  loginThrottle : Option LoginThrottle := none
  readings : ℕ := 0
  trace : List LoginEvent := []

/-- `asyncio.sleep`. -/
inductive Await
  | sleep (seconds : ℚ)

/-- Code of the login. -/
abbrev LoginCo := Co App Await fun _ => Unit

/-- `HTTPException`. -/
structure HttpException where
  status : ℕ
  detail : String
  headers : List (String × String) := []

structure Cookie where
  key : String
  value : Str
  httponly : Bool
  samesite : String
  secure : Bool
  maxAge : ℕ

structure LoginResponse where
  token : Str
  cookie : Option Cookie := none

/-- A request with its `LoginBody`. `https` is what `is_https` says of it. -/
structure LoginRequest where
  password : Str
  https : Bool := false

section Code

variable (clock : ℕ → ℚ) (sessionToken : Str → Str)

/-- `_now`. -/
def now : LoginCo ℚ := do
  let app ← get
  modify fun app => { app with readings := app.readings + 1 }
  return clock app.readings

/-- `_throttle` : from here on there is one. -/
def throttle : LoginCo Unit := do
  match (← get).loginThrottle with
  | some _ => return ()
  | none =>
    let time ← now clock
    modify fun app => { app with loginThrottle := some (.new time) }

/-- `LoginThrottle.retry_after`, of the throttle of the app. -/
def retryAfter : LoginCo (Option ℤ) := do
  let time ← now clock
  modify fun app => { app with loginThrottle := app.loginThrottle.map (LoginThrottle.refill time) }
  let wait := (← get).loginThrottle.bind LoginThrottle.wait
  modify fun app => { app with trace := .looked time wait :: app.trace }
  return wait

/-- `LoginThrottle.failed`, of the throttle of the app. -/
def failed : LoginCo Unit := do
  let time ← now clock
  modify fun app => { app with
    loginThrottle := app.loginThrottle.map fun throttle =>
      (LoginThrottle.refill time throttle).take }

/-- `hmac.compare_digest`. -/
def compareDigest (given real : Str) : LoginCo Bool := do
  let time ← now clock
  modify fun app => { app with trace := .compared time given real :: app.trace }
  return encode given == encode real

/-- `login`. -/
def login (request : LoginRequest) : LoginCo (Except HttpException LoginResponse) := do
  match (← get).webPassword.filter (· ≠ []) with
  | none => return .ok { token := [] }
  | some password =>
    throttle clock
    match ← retryAfter clock with
    | some wait =>
      return .error ⟨429, tooManyLogins wait, [("Retry-After", toString wait)]⟩
    | none =>
      if ← compareDigest clock request.password password then
        let token := sessionToken password
        return .ok { token, cookie := some ⟨"mtrtk_session", token, true, "lax", request.https,
          30 * 86400⟩ }
      else
        failed clock
        Co.ask (.sleep failedLoginDelayS)
        return .error ⟨401, "wrong password", []⟩

end Code

/-! ## What a login does -/

namespace App

variable (clock : ℕ → ℚ) (app : App)

/-- With a throttle, made if there was none. -/
def made : App :=
  match app.loginThrottle with
  | some _ => app
  | none =>
    { app with
      loginThrottle := some (.new (clock app.readings))
      readings := app.readings + 1 }

/-- The throttle at the next reading. -/
def refilled : Option LoginThrottle :=
  app.loginThrottle.map (LoginThrottle.refill (clock app.readings))

/-- What `retry_after` says. -/
def wait : Option ℤ := (app.refilled clock).bind LoginThrottle.wait

/-- After `retry_after`. -/
def looked : App :=
  { app with
    loginThrottle := app.refilled clock
    readings := app.readings + 1
    trace := .looked (clock app.readings) (app.wait clock) :: app.trace }

/-- After a comparison. -/
def compared (given real : Str) : App :=
  { app with
    readings := app.readings + 1
    trace := .compared (clock app.readings) given real :: app.trace }

/-- After `failed`. -/
def failed : App :=
  { app with
    loginThrottle := (app.refilled clock).map Bucket.take
    readings := app.readings + 1 }

end App

section Logins

variable {clock : ℕ → ℚ} {sessionToken : Str → Str} {app : App} {request : LoginRequest}
  {password : Str}

theorem advance_throttle : (throttle clock).advance app = (.inl ⟨⟩, app.made clock) := by
  rcases app with ⟨webPassword, _ | th, readings, trace⟩ <;> rfl

theorem advance_retryAfter :
    (retryAfter clock).advance app = (.inl (app.wait clock), app.looked clock) := rfl

theorem advance_failed : (failed clock).advance app = (.inl ⟨⟩, app.failed clock) := by
  rcases app with ⟨webPassword, _ | th, readings, trace⟩ <;> rfl

theorem advance_compareDigest (given real : Str) : (compareDigest clock given real).advance app =
    (.inl (encode given == encode real), app.compared clock given real) := rfl

/-- Without a password everyone gets in. -/
theorem login_open (h : app.webPassword.filter (· ≠ []) = none) :
    (login clock sessionToken request).advance app = (.inl (.ok { token := [] }), app) := by
  rw [login, Co.advance_bind_inl Co.advance_get]
  simp only [h]
  rfl

theorem login_refused (h : app.webPassword.filter (· ≠ []) = some password) {wait : ℤ}
    (hwait : (app.made clock).wait clock = some wait) :
    (login clock sessionToken request).advance app =
      (.inl (.error ⟨429, tooManyLogins wait, [("Retry-After", toString wait)]⟩),
        (app.made clock).looked clock) := by
  rw [login, Co.advance_bind_inl Co.advance_get]
  simp only [h]
  rw [Co.advance_bind_inl advance_throttle, Co.advance_bind_inl advance_retryAfter, hwait]
  rfl

theorem login_right (h : app.webPassword.filter (· ≠ []) = some password)
    (hwait : (app.made clock).wait clock = none) (hright : request.password = password) :
    (login clock sessionToken request).advance app =
      (.inl (.ok { token := sessionToken password, cookie := some ⟨"mtrtk_session",
          sessionToken password, true, "lax", request.https, 30 * 86400⟩ }),
        ((app.made clock).looked clock).compared clock request.password password) := by
  have heq : (encode request.password == encode password) = true := by
    rw [hright]
    exact beq_self_eq_true _
  rw [login, Co.advance_bind_inl Co.advance_get]
  simp only [h]
  rw [Co.advance_bind_inl advance_throttle, Co.advance_bind_inl advance_retryAfter, hwait]
  dsimp only
  rw [Co.advance_bind_inl (advance_compareDigest _ _), heq]
  rfl

theorem login_wrong (h : app.webPassword.filter (· ≠ []) = some password)
    (hwait : (app.made clock).wait clock = none) (hwrong : request.password ≠ password) :
    (login clock sessionToken request).advance app =
      (.inr ⟨.sleep failedLoginDelayS, fun _ => .ret (.error ⟨401, "wrong password", []⟩)⟩,
        (((app.made clock).looked clock).compared clock request.password password).failed
          clock) := by
  have hne : (encode request.password == encode password) = false :=
    beq_eq_false_iff_ne.2 fun heq => hwrong (encode_injective heq)
  rw [login, Co.advance_bind_inl Co.advance_get]
  simp only [h]
  rw [Co.advance_bind_inl advance_throttle, Co.advance_bind_inl advance_retryAfter, hwait]
  dsimp only
  rw [Co.advance_bind_inl (advance_compareDigest _ _), hne, if_neg Bool.false_ne_true,
    Co.advance_bind_inl advance_failed]
  rfl

end Logins

/-! ## What was seen -/

namespace LoginEvent

def time : LoginEvent → ℚ
  | looked time _ => time
  | compared time _ _ => time

/-- A wrong password that was compared. -/
def IsFailure : LoginEvent → Prop
  | looked _ _ => False
  | compared _ given real => given ≠ real

instance : DecidablePred IsFailure
  | looked _ _ => inferInstanceAs (Decidable False)
  | compared _ given real => inferInstanceAs (Decidable (given ≠ real))

end LoginEvent

/-- The failures since an instant. -/
def failuresFrom (a : ℚ) (trace : List LoginEvent) : ℕ :=
  trace.countP fun e => e.IsFailure ∧ a ≤ e.time

/-- The failures in an interval. -/
def failures (a b : ℚ) (trace : List LoginEvent) : ℕ :=
  trace.countP fun e => e.IsFailure ∧ a ≤ e.time ∧ e.time ≤ b

variable {a b t : ℚ} {e : LoginEvent} {trace : List LoginEvent}

theorem failuresFrom_cons_of_not (h : ¬(e.IsFailure ∧ a ≤ e.time)) :
    failuresFrom a (e :: trace) = failuresFrom a trace :=
  List.countP_cons_of_neg (by simpa using h)

theorem failuresFrom_cons (h : e.IsFailure) (ha : a ≤ e.time) :
    failuresFrom a (e :: trace) = failuresFrom a trace + 1 :=
  List.countP_cons_of_pos (by simpa using ⟨h, ha⟩)

theorem failures_cons_of_not (h : ¬(e.IsFailure ∧ a ≤ e.time ∧ e.time ≤ b)) :
    failures a b (e :: trace) = failures a b trace :=
  List.countP_cons_of_neg (by simpa using h)

theorem failures_cons (h : e.IsFailure) (ha : a ≤ e.time) (hb : e.time ≤ b) :
    failures a b (e :: trace) = failures a b trace + 1 :=
  List.countP_cons_of_pos (by simpa using ⟨h, ha, hb⟩)

theorem failures_le_failuresFrom : failures a b trace ≤ failuresFrom a trace :=
  List.countP_mono_left fun e _ h => by
    have h : e.IsFailure ∧ a ≤ e.time ∧ e.time ≤ b := by simpa using h
    simpa using And.intro h.1 h.2.1

/-- There are none yet since an instant to come. -/
theorem failuresFrom_eq_zero (h : ∀ e ∈ trace, e.time < a) : failuresFrom a trace = 0 :=
  List.countP_eq_zero.2 fun e he hcount => by
    have hcount : e.IsFailure ∧ a ≤ e.time := by simpa using hcount
    exact (h e he).not_ge hcount.2

/-- The last events go back to a refusal with this wait, without a failure. -/
def RefusedSince (time : ℚ) (wait : ℤ) : List LoginEvent → Prop
  | [] => False
  | e :: trace => e = .looked time (some wait) ∨ ¬e.IsFailure ∧ RefusedSince time wait trace

/-! ## Between the turns -/

/-- What holds of the app between the turns, whatever the clock says next. -/
structure Throttled (clock : ℕ → ℚ) (app : App) : Prop where
  none : app.loginThrottle = none → app.trace = []
  past : ∀ e ∈ app.trace, e.time ≤ clock app.readings
  stamp : ∀ throttle ∈ app.loginThrottle, throttle.stamp ≤ clock app.readings
  full : ∀ throttle ∈ app.loginThrottle, throttle.tokens ≤ loginBurst
  spent : ∀ throttle ∈ app.loginThrottle, ∀ a,
    throttle.Spent loginBurst loginRefillS a (failuresFrom a app.trace)
  bound : ∀ a b, a ≤ b → (failures a b app.trace : ℚ) ≤ loginBurst + (b - a) / loginRefillS
  ready : ∀ throttle ∈ app.loginThrottle, ∀ time wait, RefusedSince time wait app.trace →
    throttle.ReadyFrom loginBurst loginRefillS (time + wait)
  patient : ∀ newer time' wait' older, app.trace = newer ++ .looked time' wait' :: older →
    ∀ time wait, RefusedSince time wait older → time + wait ≤ time' → wait' = Option.none

namespace Throttled

variable {clock : ℕ → ℚ} {app : App} {th : LoginThrottle}

theorem loginRefillS_pos : (0 : ℚ) < loginRefillS := by norm_num [loginRefillS]

theorem one_le_loginBurst : (1 : ℚ) ≤ loginBurst := by norm_num [loginBurst]

/-- The first state. -/
theorem start (webPassword : Option Str) : Throttled clock { webPassword } where
  none _ := rfl
  past e he := absurd he List.not_mem_nil
  stamp _ h := by cases h
  full _ h := by cases h
  spent _ h := by cases h
  bound a b hab := by
    have hcome : 0 ≤ (b - a) / loginRefillS := div_nonneg (sub_nonneg.2 hab) loginRefillS_pos.le
    have hburst := one_le_loginBurst
    have hzero : failures a b [] = 0 := rfl
    rw [hzero, Nat.cast_zero]
    linarith
  ready _ h := by cases h
  patient newer time' wait' older h := by
    simp at h

/-- New settings. -/
theorem settings (h : Throttled clock app) (webPassword : Option Str) :
    Throttled clock { app with webPassword } :=
  ⟨h.none, h.past, h.stamp, h.full, h.spent, h.bound, h.ready, h.patient⟩

/-- A comparison does not look. -/
theorem patient_compared (h : Throttled clock app) (time : ℚ) (given real : Str) :
    ∀ newer time' wait' older,
      .compared time given real :: app.trace = newer ++ .looked time' wait' :: older →
      ∀ t wait, RefusedSince t wait older → t + wait ≤ time' → wait' = Option.none := by
  rintro (_ | ⟨e, newer⟩) time' wait' older heq t wait hrefused hlong
  · cases (List.cons.inj heq).1
  · exact h.patient newer time' wait' older (List.cons.inj heq).2 t wait hrefused hlong

/-- A wait that is told is long enough. -/
theorem wait_le {wait : ℤ} (h : th.wait = some wait) :
    (1 - th.tokens) * loginRefillS ≤ wait := by
  unfold LoginThrottle.wait at h
  split at h
  · cases h
  · cases h
    exact (Int.le_ceil _).trans (by exact_mod_cast le_max_right _ _)

theorem wait_eq_none : th.wait = Option.none ↔ 1 ≤ th.tokens := by
  unfold LoginThrottle.wait
  split <;> simp_all

variable (hclock : Monotone clock)

include hclock

theorem made (h : Throttled clock app) : Throttled clock (app.made clock) := by
  have hle : clock app.readings ≤ clock (app.readings + 1) := hclock (Nat.le_succ _)
  unfold App.made
  rcases hth : app.loginThrottle with _ | th
  · have htrace := h.none hth
    dsimp only
    refine ⟨fun hno => absurd hno (Option.some_ne_none _), fun e he => (h.past e he).trans hle,
      ?_, ?_, ?_, h.bound, ?_, h.patient⟩
    · rintro th ⟨⟩
      exact hle
    · rintro th ⟨⟩
      exact le_rfl
    · rintro th ⟨⟩ a
      dsimp only
      rw [htrace]
      exact Or.inl rfl
    · rintro th ⟨⟩ time wait hrefused
      dsimp only at hrefused
      rw [htrace] at hrefused
      exact hrefused.elim
  · exact h

theorem looked (h : Throttled clock app) (hth : app.loginThrottle = some th) :
    Throttled clock (app.looked clock) := by
  set now := clock app.readings with hnow
  have hle : now ≤ clock (app.readings + 1) := hclock (Nat.le_succ _)
  have hrefilled : app.refilled clock = some (th.refill now) := by rw [App.refilled, hth]; rfl
  have hwait : app.wait clock = (th.refill now).wait := by rw [App.wait, hrefilled]; rfl
  have hstamp : th.stamp ≤ now := h.stamp th hth
  have hlook : ¬(LoginEvent.looked now (th.refill now).wait).IsFailure := id
  unfold App.looked
  rw [hrefilled, hwait]
  refine ⟨fun hno => absurd hno (Option.some_ne_none _), ?_, ?_, ?_, ?_, fun a b hab => ?_, ?_, ?_⟩
  · exact List.forall_mem_cons.2 ⟨hle, fun e he => (h.past e he).trans hle⟩
  · rintro _ ⟨⟩
    exact hle
  · rintro _ ⟨⟩
    exact Bucket.tokens_refill_le
  · rintro _ ⟨⟩ a
    dsimp only
    rw [failuresFrom_cons_of_not fun hfail => hlook hfail.1]
    exact (h.spent th hth a).refill hstamp
  · dsimp only
    rw [failures_cons_of_not fun hfail => hlook hfail.1]
    exact h.bound a b hab
  · rintro _ ⟨⟩ time wait (heq | ⟨-, hrefused⟩)
    · obtain ⟨htime, hwait⟩ := LoginEvent.looked.inj heq
      refine Bucket.readyFrom_of_le loginRefillS_pos one_le_loginBurst ?_
      rw [← htime]
      exact add_le_add_right (wait_le hwait) now
    · exact (h.ready th hth time wait hrefused).refill loginRefillS_pos hstamp
  · rintro (_ | ⟨e, newer⟩) time' wait' older heq time wait hrefused hlong
    · obtain ⟨hlast, rfl⟩ := List.cons.inj heq
      obtain ⟨htime, rfl⟩ := LoginEvent.looked.inj hlast
      rw [← htime] at hlong
      exact wait_eq_none.2 (h.ready th hth time wait hrefused now hstamp hlong)
    · exact h.patient newer time' wait' older (List.cons.inj heq).2 time wait hrefused hlong

theorem right (h : Throttled clock app) (hth : app.loginThrottle = some th) (password : Str) :
    Throttled clock (app.compared clock password password) := by
  have hle : clock app.readings ≤ clock (app.readings + 1) := hclock (Nat.le_succ _)
  have hright : ¬(LoginEvent.compared (clock app.readings) password password).IsFailure :=
    fun hfail => hfail rfl
  unfold App.compared
  refine ⟨fun hno => ?_, ?_, fun th hth => (h.stamp th hth).trans hle, h.full, fun th hth a => ?_,
    fun a b hab => ?_, ?_, ?_⟩
  · dsimp only at hno
    rw [hth] at hno
    cases hno
  · exact List.forall_mem_cons.2 ⟨hle, fun e he => (h.past e he).trans hle⟩
  · dsimp only
    rw [failuresFrom_cons_of_not fun hfail => hright hfail.1]
    exact h.spent th hth a
  · dsimp only
    rw [failures_cons_of_not fun hfail => hright hfail.1]
    exact h.bound a b hab
  · rintro th hth time wait (heq | ⟨-, hrefused⟩)
    · cases heq
    · exact h.ready th hth time wait hrefused
  · exact h.patient_compared _ _ _

/-- A wrong password, with a token to take for it. -/
theorem wrong (h : Throttled clock app) (hth : app.loginThrottle = some th) (hone : 1 ≤ th.tokens)
    {given real : Str} (hne : given ≠ real) :
    Throttled clock ((app.compared clock given real).failed clock) := by
  set asked := clock app.readings with hasked
  set taken := clock (app.readings + 1) with htaken
  have hle : asked ≤ taken := hclock (Nat.le_succ _)
  have hnext : taken ≤ clock (app.readings + 1 + 1) := hclock (Nat.le_succ _)
  have hstamp : th.stamp ≤ asked := h.stamp th hth
  have hfail : (LoginEvent.compared asked given real).IsFailure := hne
  have hthrottle : ((app.compared clock given real).refilled clock).map Bucket.take =
      some (th.refill taken).take := by
    rw [App.refilled, App.compared, hth]
    rfl
  have hready : 1 ≤ (th.refill taken).tokens := by
    refine le_min one_le_loginBurst (hone.trans (le_add_of_nonneg_right ?_))
    exact div_nonneg (sub_nonneg.2 (hstamp.trans hle)) loginRefillS_pos.le
  unfold App.failed
  rw [hthrottle]
  unfold App.compared
  refine ⟨fun hno => absurd hno (Option.some_ne_none _), ?_, ?_, ?_, ?_, fun a b hab => ?_, ?_, ?_⟩
  · exact List.forall_mem_cons.2 ⟨hle.trans hnext, fun e he =>
      (h.past e he).trans (hle.trans hnext)⟩
  · rintro _ ⟨⟩
    exact hnext
  · rintro _ ⟨⟩
    rw [Bucket.tokens_take hready]
    exact (sub_le_self _ zero_le_one).trans Bucket.tokens_refill_le
  · rintro _ ⟨⟩ a
    dsimp only
    by_cases ha : a ≤ asked
    · rw [failuresFrom_cons hfail ha]
      exact ((h.spent th hth a).refill (hstamp.trans hle)).take loginRefillS_pos
        Bucket.tokens_refill_le hready (ha.trans hle)
    · rw [failuresFrom_cons_of_not fun hcount => ha hcount.2,
        failuresFrom_eq_zero fun e he => (h.past e he).trans_lt (not_le.1 ha)]
      exact Or.inl rfl
  · dsimp only
    by_cases hin : a ≤ asked ∧ asked ≤ b
    · have hmono : (asked - a) / loginRefillS ≤ (b - a) / loginRefillS :=
        div_le_div_of_nonneg_right (sub_le_sub_right hin.2 a) loginRefillS_pos.le
      have hroom := (h.spent th hth a).add_one_le loginRefillS_pos one_le_loginBurst hone hstamp
        hin.1
      have hcount : (failures a b app.trace : ℚ) ≤ failuresFrom a app.trace := by
        exact_mod_cast failures_le_failuresFrom
      rw [failures_cons hfail hin.1 hin.2, Nat.cast_succ]
      linarith
    · rw [failures_cons_of_not fun hcount => hin hcount.2]
      exact h.bound a b hab
  · rintro _ ⟨⟩ time wait (heq | ⟨hno, -⟩)
    · cases heq
    · exact absurd hfail hno
  · exact h.patient_compared _ _ _

end Throttled

/-! ## The logins in turns -/

section Turns

variable (clock : ℕ → ℚ) (sessionToken : Str → Str)

/-- The logins there can be. -/
def logins : Set (LoginCo (Except HttpException LoginResponse)) :=
  {c | ∃ request, c = login clock sessionToken request}

/-- What else changes the app : its settings. -/
def Resettled (app app' : App) : Prop := ∃ webPassword, app' = { app with webPassword }

/-- A sleep leaves the app as it is. -/
def Slept (q : Await) (_ : (fun _ : Await => Unit) q) (app app' : App) : Prop := app' = app

/-- The app and the logins that wait, at any time. -/
def Reached (w : Tasks App Await (fun _ => Unit) (Except HttpException LoginResponse)) : Prop :=
  ∃ webPassword, Relation.ReflTransGen (Turn (logins clock sessionToken) Resettled Slept)
    { state := { webPassword } } w

theorem exists_throttle (app : App) : ∃ th, (app.made clock).loginThrottle = some th := by
  rcases app with ⟨webPassword, _ | th, readings, trace⟩
  · exact ⟨_, rfl⟩
  · exact ⟨th, rfl⟩

variable {clock sessionToken} {app : App}

/-- A login keeps it, wherever it gives up control. -/
theorem Throttled.kept (hclock : Monotone clock) (h : Throttled clock app)
    (request : LoginRequest) :
    Tasks.Kept (Throttled clock) Slept (login clock sessionToken request) app := by
  have hmade := h.made hclock
  obtain ⟨th, hth⟩ := exists_throttle clock app
  have hlooked := hmade.looked hclock hth
  have hrefilled : ((app.made clock).looked clock).loginThrottle =
      some (th.refill (clock (app.made clock).readings)) := by
    rw [App.looked, App.refilled, hth]
    rfl
  rcases hpassword : app.webPassword.filter (· ≠ []) with _ | password
  · exact Co.wp_of_inl (login_open hpassword) h
  rcases hwait : (app.made clock).wait clock with _ | wait
  · by_cases hright : request.password = password
    · refine Co.wp_of_inl (login_right hpassword hwait hright) ?_
      rw [hright]
      exact hlooked.right hclock hrefilled password
    · have hone : 1 ≤ (th.refill (clock (app.made clock).readings)).tokens := by
        refine wait_eq_none.1 ?_
        rw [← hwait, App.wait, App.refilled, hth]
        rfl
      have hwrong := hlooked.wrong hclock hrefilled hone hright
      refine Co.wp_of_inr (login_wrong hpassword hwait hright) ⟨hwrong, fun t ht r u hu => ?_⟩
      obtain rfl : u = t := hu
      rcases Relation.ReflTransGen.cases_tail ht with rfl | ⟨s, -, ht⟩
      · exact hwrong
      · exact ht
  · exact Co.wp_of_inl (login_refused hpassword hwait) hlooked

theorem Reached.throttled (hclock : Monotone clock)
    {w : Tasks App Await (fun _ => Unit) (Except HttpException LoginResponse)}
    (h : Reached clock sessionToken w) : Throttled clock w.state := by
  obtain ⟨webPassword, h⟩ := h
  refine turns_invariant (Throttled clock) ?_ ?_ (Throttled.start webPassword) h
  · rintro _ ⟨request, rfl⟩ app happ
    exact happ.kept hclock request
  · rintro app _ happ ⟨webPassword, rfl⟩
    exact happ.settings webPassword

theorem refusedSince_append {t : ℚ} {wait : ℤ} {between old : List LoginEvent}
    (h : ∀ e ∈ between, ¬e.IsFailure) :
    RefusedSince t wait (between ++ .looked t (some wait) :: old) := by
  induction between with
  | nil => exact Or.inl rfl
  | cons e between ih =>
    obtain ⟨he, h⟩ := List.forall_mem_cons.1 h
    exact Or.inr ⟨he, ih h⟩

/-- At any time : an interval has room for a burst of failures and for those that have come back in
it. A login is refused before the password is looked at, or compares it with a token at hand. And
after what a refused login is told to wait for, without a failure, a login is not refused. -/
theorem login_throttled (clock : ℕ → ℚ) (hclock : Monotone clock) (sessionToken : Str → Str)
    (w : Tasks App Await (fun _ => Unit) (Except HttpException LoginResponse))
    (h : Reached clock sessionToken w) :
    (∀ a length : ℚ, 0 ≤ length →
      (failures a (a + length) w.state.trace : ℚ) ≤ loginBurst + length / loginRefillS) ∧
    (∀ request password, w.state.webPassword = some password → password ≠ [] →
      (∃ app time wait, (login clock sessionToken request).advance w.state =
          (.inl (.error ⟨429, tooManyLogins wait, [("Retry-After", toString wait)]⟩), app) ∧
        app.trace = .looked time (some wait) :: w.state.trace) ∨
      ∃ result app time instant, (login clock sessionToken request).advance w.state =
          (result, app) ∧
        app.trace = .compared instant request.password password ::
          .looked time none :: w.state.trace) ∧
    ∀ newer (time' : ℚ) wait' between (time : ℚ) (wait : ℤ) old,
      w.state.trace =
        newer ++ .looked time' wait' :: (between ++ .looked time (some wait) :: old) →
      (∀ e ∈ between, ¬e.IsFailure) → time + wait ≤ time' → wait' = none := by
  have hthrottled := h.throttled hclock
  refine ⟨fun a length hlength => ?_, fun request password hpassword hset => ?_, ?_⟩
  · have hbound := hthrottled.bound a (a + length) (le_add_of_nonneg_right hlength)
    rwa [add_sub_cancel_left] at hbound
  · have hset : w.state.webPassword.filter (· ≠ []) = some password := by
      rw [hpassword]
      simpa using hset
    have htrace : (w.state.made clock).trace = w.state.trace := by
      unfold App.made
      split <;> rfl
    rcases hwait : (w.state.made clock).wait clock with _ | wait
    · right
      have hlooked : ((w.state.made clock).looked clock).trace =
          .looked (clock (w.state.made clock).readings) none :: w.state.trace := by
        rw [App.looked, hwait, htrace]
      by_cases hright : request.password = password
      · exact ⟨_, _, _, _, login_right hset hwait hright, congrArg (List.cons _) hlooked⟩
      · exact ⟨_, _, _, _, login_wrong hset hwait hright, congrArg (List.cons _) hlooked⟩
    · left
      have hlooked : ((w.state.made clock).looked clock).trace =
          .looked (clock (w.state.made clock).readings) (some wait) :: w.state.trace := by
        rw [App.looked, hwait, htrace]
      exact ⟨_, _, _, login_refused hset hwait, hlooked⟩
  · intro newer time' wait' between time wait old heq hbetween hlong
    exact hthrottled.patient newer time' wait' _ heq time wait (refusedSince_append hbetween) hlong

end Turns

/-- A clock that goes on by ten milliseconds at each reading, and stands still for six seconds
before the reading 32. -/
def pausing (n : ℕ) : ℚ := n / 100 + if n < 32 then 0 else 6

theorem pausing_mono : Monotone pausing := by
  intro m n hmn
  have hcast : (m : ℚ) / 100 ≤ n / 100 :=
    div_le_div_of_nonneg_right (Nat.cast_le.2 hmn) (by norm_num)
  refine add_le_add hcast ?_
  split_ifs
  · exact le_rfl
  · norm_num
  · omega
  · exact le_rfl

/-- After so many logins with a wrong password. -/
def guesses : ℕ → Tasks App Await (fun _ => Unit) (Except HttpException LoginResponse)
  | 0 => { state := { webPassword := some "hunter2".toList } }
  | n + 1 => .go (login pausing id { password := "guess".toList }) (guesses n).waiting
      (guesses n).state

theorem reached_guesses : ∀ n, Reached pausing id (guesses n)
  | 0 => ⟨_, .refl⟩
  | n + 1 => by
    obtain ⟨webPassword, hreached⟩ := reached_guesses n
    exact ⟨webPassword, hreached.tail (.start ⟨{ password := "guess".toList }, rfl⟩)⟩

/-- Ten guesses in a third of a second are compared. The right password is refused behind them, and
six seconds after a refusal a guess is compared again. -/
theorem login_throttled_guesses :
    (failures 0 (0 + 1 / 3) (guesses 10).state.trace = 10 ∧
      (10 : ℚ) ≤ loginBurst + 1 / 3 / loginRefillS) ∧
    (∃ app wait, (login pausing id { password := "hunter2".toList }).advance (guesses 10).state =
      (.inl (.error ⟨429, tooManyLogins wait, [("Retry-After", toString wait)]⟩), app)) ∧
    ∃ newer time' old, (guesses 12).state.trace =
      newer ++ .looked time' none :: .looked (31 / 100) (some 6) :: old := by
  obtain ⟨hroom, hlogin, -⟩ := login_throttled pausing pausing_mono id _ (reached_guesses 10)
  obtain ⟨-, -, hpatient⟩ := login_throttled pausing pausing_mono id _ (reached_guesses 12)
  refine ⟨?_, ?_, ?_⟩
  · have hten : failures 0 (0 + 1 / 3) (guesses 10).state.trace = 10 := by decide +kernel
    have hbound := hroom 0 (1 / 3) (by norm_num)
    rw [hten] at hbound
    exact ⟨hten, by exact_mod_cast hbound⟩
  · have hhead : ((login pausing id { password := "hunter2".toList }).advance
        (guesses 10).state).2.trace.head? = some (.looked (31 / 100) (some 6)) := by decide +kernel
    obtain ⟨app, -, wait, hadvance, -⟩ | ⟨result, app, time, instant, hadvance, htrace⟩ :=
      hlogin { password := "hunter2".toList } "hunter2".toList (by decide +kernel) (by decide)
    · exact ⟨app, wait, hadvance⟩
    · rw [hadvance, htrace] at hhead
      cases Option.some.inj hhead
  · obtain ⟨wait', htrace⟩ : ∃ wait', (guesses 12).state.trace =
        (guesses 12).state.trace.take 1 ++ .looked (158 / 25) wait' ::
          ([] ++ .looked (31 / 100) (some 6) :: (guesses 12).state.trace.drop 3) :=
      ⟨none, by decide +kernel⟩
    obtain rfl : wait' = none :=
      hpatient _ _ _ _ _ _ _ htrace (fun _ h => absurd h List.not_mem_nil) (by norm_num)
    exact ⟨_, _, _, htrace⟩

end Auth

end Mtrtk
