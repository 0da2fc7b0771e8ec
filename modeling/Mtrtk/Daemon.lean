import Mtrtk.BaseVerify
import Mtrtk.Run

/-!
# The base daemon

What decides the mode of a base : the running settings, the `.env` file, the sites table and
the `BaseModeManager`, with the operations that move them.

`web/api/config.py` : `apply_settings_change` is the one path that writes settings. The
model has the four live keys, the ones a mode change can post. `web/api/base.py` : the
routes `PUT /mode`, `POST /sites/{name}/activate` and `POST /survey/restart`. The CLI activates
a row of the table behind the daemon's back, and the poll of the manager picks it up. A
reconnect of the receiver calls `apply_mode`.

The operations run one after the other here, each to its end. The receiver answers the
writes of one as in its `answers`. A `.env` file is the map its parser reads from it. What
Python prints for a float and a quoted string is a parameter, the class `PyText`.
-/

namespace Mtrtk

/-! ## Settings -/

/-- LIVE_KEYS, as `sorted` puts them. -/
inductive LiveKey
  | activeSite | baseMode | svinAccLimitM | svinMinDurationS
  deriving DecidableEq, Repr

namespace LiveKey

def name : LiveKey → String
  | activeSite => "active_site"
  | baseMode => "base_mode"
  | svinAccLimitM => "svin_acc_limit_m"
  | svinMinDurationS => "svin_min_duration_s"

def all : List LiveKey := [activeSite, baseMode, svinAccLimitM, svinMinDurationS]

theorem mem_all (key : LiveKey) : key ∈ all := by cases key <;> simp [all]

end LiveKey

/-- The live keys of `Settings`. -/
structure Settings where
  baseMode : BaseMode := .surveyIn
  svinMinDurationS : ℤ := 300
  svinAccLimitM : ℚ := 2
  activeSite : Option String := none
  deriving DecidableEq

/-- `ModeBody`, with the constraints a body is refused by before it gets to the route. -/
structure ModeBody where
  mode : BaseMode
  svinMinDurationS : Option ℤ := none
  svinAccLimitM : Option ℚ := none
  site : Option String := none
  one_le_duration : ∀ s ∈ svinMinDurationS, 1 ≤ s := by simp
  acc_pos : ∀ a ∈ svinAccLimitM, 0 < a := by simp
  site_belongs_to_fixed : site ≠ none → mode = .fixed := by simp

/-- `HTTPException`. -/
structure HttpError where
  status : ℕ
  detail : String
  deriving DecidableEq, Repr

/-- NAME_MAX. -/
def nameMax : ℕ := 64

def noSiteDetail : String :=
  "base_mode=fixed needs a site: add one and activate it, or set active_site to a saved site"

def newlineDetail : String := "value must not contain a newline"
def interpolationDetail : String := "environment interpolation is not supported in values"

/-- `str.isspace` of a character. -/
def pyIsSpace (c : Char) : Bool :=
  let n := c.toNat
  (9 ≤ n && n ≤ 13) || (28 ≤ n && n ≤ 32) || n = 0x85 || n = 0xA0 || n = 0x1680 ||
    (0x2000 ≤ n && n ≤ 0x200A) || n = 0x2028 || n = 0x2029 || n = 0x202F || n = 0x205F || n = 0x3000

/-- `not value.strip()`. -/
def isBlank (value : String) : Bool := value.toList.all pyIsSpace

/-- The texts Python has for values : `str` of a float, and `repr` of a string. -/
class PyText where
  str : ℚ → String
  repr : String → String

/-- `"${" in value`. -/
def interpolates : List Char → Bool
  | '$' :: '\x7b' :: _ => true
  | _ :: cs => interpolates cs
  | [] => false

/-- `_writable` : a value no line of the file can carry is refused. -/
def writable (value : String) : Except String String :=
  if value.toList.any fun c => c = '\r' || c = '\n' then .error newlineDetail
  else if interpolates value.toList then .error interpolationDetail
  else .ok value

namespace Settings

/-- `getattr(a, key) == getattr(b, key)`. -/
def same (a b : Settings) : LiveKey → Bool
  | .activeSite => a.activeSite = b.activeSite
  | .baseMode => a.baseMode = b.baseMode
  | .svinAccLimitM => a.svinAccLimitM = b.svinAccLimitM
  | .svinMinDurationS => a.svinMinDurationS = b.svinMinDurationS

/-- `to_env_value` of the value of a key. -/
def toEnvValue [PyText] (s : Settings) : LiveKey → Except String String
  | .activeSite => s.activeSite.elim (.ok "") writable
  | .baseMode => writable s.baseMode.value
  | .svinAccLimitM => writable (PyText.str s.svinAccLimitM)
  | .svinMinDurationS => writable (toString s.svinMinDurationS)

/-- The settings `_merged` validates. A blank site is none. -/
def merged (s : Settings) (body : ModeBody) : Settings where
  baseMode := body.mode
  svinMinDurationS := body.svinMinDurationS.getD s.svinMinDurationS
  svinAccLimitM := body.svinAccLimitM.getD s.svinAccLimitM
  activeSite := (body.site.or s.activeSite).filter fun name => !isBlank name

/-- The key the fields of `Settings` refuse, if any. -/
def refused (s : Settings) : Option LiveKey :=
  if s.svinMinDurationS < 1 ∨ 86400 < s.svinMinDurationS then some .svinMinDurationS
  else if s.svinAccLimitM ≤ 0 ∨ 100 < s.svinAccLimitM then some .svinAccLimitM
  else if nameMax < (s.activeSite.getD "").length then some .activeSite
  else none

/-- `_validated`. -/
def validated (s : Settings) (body : ModeBody) : Except HttpError Settings :=
  match (s.merged body).refused with
  | some key => .error ⟨422, key.name⟩
  | none => .ok (s.merged body)

/-- `setattr(current, key, getattr(candidate, key))` for the changed keys. -/
def assign (s candidate : Settings) (changed : List LiveKey) : Settings where
  baseMode := if .baseMode ∈ changed then candidate.baseMode else s.baseMode
  svinMinDurationS :=
    if .svinMinDurationS ∈ changed then candidate.svinMinDurationS else s.svinMinDurationS
  svinAccLimitM := if .svinAccLimitM ∈ changed then candidate.svinAccLimitM else s.svinAccLimitM
  activeSite := if .activeSite ∈ changed then candidate.activeSite else s.activeSite

end Settings

/-- Whether the body updates a key. -/
def ModeBody.posts (body : ModeBody) : LiveKey → Bool
  | .activeSite => body.site.isSome
  | .baseMode => true
  | .svinAccLimitM => body.svinAccLimitM.isSome
  | .svinMinDurationS => body.svinMinDurationS.isSome

/-- `_env_values` of the keys. -/
def envValues [PyText] (candidate : Settings) :
    List LiveKey → Except HttpError (List (LiveKey × String))
  | [] => .ok []
  | key :: keys =>
    match candidate.toEnvValue key with
    | .error message => .error ⟨422, key.name ++ ": " ++ message⟩
    | .ok value => (envValues candidate keys).map ((key, value) :: ·)

/-- The targets are the values of the keys, and every key has one. -/
theorem envValues_spec [PyText] {candidate : Settings} :
    ∀ {keys : List LiveKey} {targets : List (LiveKey × String)},
      envValues candidate keys = .ok targets →
        (∀ key ∈ keys, ∃ value, candidate.toEnvValue key = .ok value) ∧
        ∀ key value, (key, value) ∈ targets ↔ key ∈ keys ∧ candidate.toEnvValue key = .ok value
  | [], targets, h => by
    obtain rfl : [] = targets := Except.ok.inj h
    simp
  | k :: keys, targets, h => by
    unfold envValues at h
    split at h
    · exact nomatch h
    · next v hv =>
      cases hrest : envValues candidate keys with
      | error e => exact nomatch (hrest ▸ h)
      | ok rest =>
        obtain rfl : (k, v) :: rest = targets := by simpa [hrest, Except.map] using h
        obtain ⟨hall, hmem⟩ := envValues_spec hrest
        refine ⟨List.forall_mem_cons.2 ⟨⟨v, hv⟩, hall⟩, fun key value => ?_⟩
        rw [List.mem_cons, hmem, List.mem_cons, Prod.mk.injEq, or_and_right]
        refine or_congr_left (and_congr_right ?_)
        rintro rfl
        rw [hv, Except.ok.injEq, eq_comm]

/-- `read_env`, of the live keys. -/
abbrev Env := LiveKey → Option String

/-- `update_env`. -/
def updateEnv (env : Env) (targets : List (LiveKey × String)) : Env :=
  fun key => (targets.lookup key).or (env key)

/-- `resolve_fixed_site`. -/
def resolveFixedSite (sites : SitesTable) (name : Option String) : Option Site :=
  match truthy name with
  | none => sites.active
  | some name => (sites.get name).or sites.active

/-! ## The world of an operation -/

/-- The table, and how the receiver answers the writes to come. -/
structure World where
  sites : SitesTable
  answers : ℕ → Answer

/-- Every write is acknowledged. -/
def acks : ℕ → Answer := fun _ => .ack

/-- `sites.activate`. -/
def World.activate (w : World) (name : String) : Option Site × World :=
  match w.sites.activate name with
  | none => (none, w)
  | some (site, sites) => (some site, { w with sites })

def World.reply : (q : BaseCall) → World → BaseModeManager → q.Reply × World × BaseModeManager
  | .applyItems items, w, m =>
    (w.answers 0, { w with answers := fun n => w.answers (n + 1) }, m.answered items (w.answers 0))
  | .get name, w, m => (w.sites.get name, w, m)
  | .active, w, m => (w.sites.active, w, m)
  | .activate name, w, m => ((w.activate name).1, (w.activate name).2, m)

/-! ## The daemon -/

/-- The daemon, as far as a mode change goes. -/
structure Daemon where
  settings : Settings
  env : Env
  manager : BaseModeManager
  sites : SitesTable

namespace Daemon

/-- `_run_basemode`. -/
def start (settings : Settings) (env : Env) (sites : SitesTable) : Daemon where
  settings := settings
  env := env
  manager := .init settings.baseMode settings.svinMinDurationS settings.svinAccLimitM
    settings.activeSite 0
  sites := sites

/-- Run an operation of the manager to its end. -/
def perform {α : Type} (d : Daemon) (answers : ℕ → Answer) (c : BaseM α) : α × Daemon :=
  let r := c.exec World.reply ⟨d.sites, answers⟩ d.manager
  (r.1, { d with sites := r.2.1.sites, manager := r.2.2 })

section Routes

variable [Pyubx2]

/-- `receiver.capabilities`. -/
def reconnect (d : Daemon) (answers : ℕ → Answer) : Daemon :=
  (d.perform answers BaseModeManager.applyMode).2

/-- A round of `_poll_loop`. -/
def poll (d : Daemon) (answers : ℕ → Answer) : Daemon :=
  (d.perform answers BaseModeManager.pollActiveSite).2

/-- `POST /api/base/sites/{name}/activate`. -/
def activateSite [PyText] (d : Daemon) (name : String) (answers : ℕ → Answer) :
    Except HttpError Daemon :=
  if (d.sites.get name).isNone then .error ⟨404, "no site named " ++ PyText.repr name⟩
  else
    match d.perform answers (BaseModeManager.activateSite name) with
    | (.error key, _) => .error ⟨404, "no site named " ++ PyText.repr key⟩
    | (.ok _, d) =>
      .ok { d with settings :=
        { d.settings with activeSite := some name, baseMode := d.manager.mode } }

/-- `POST /api/base/survey/restart`. The route answers a failed restart with an error too. -/
def restartSurvey (d : Daemon) (answers : ℕ → Answer) :
    Except HttpError (RestartResult × Daemon) :=
  if d.manager.mode ≠ .surveyIn then
    .error ⟨409, "base mode is " ++ d.manager.mode.value ++
      ": switch to survey-in before restarting it"⟩
  else .ok (d.perform answers BaseModeManager.restartSurveyIn)

/-- `_already_applied`. -/
def alreadyApplied (m : BaseModeManager) (wasMode : BaseMode) (wasSite : Option String)
    (changed : List LiveKey) : Bool :=
  if m.mode ≠ wasMode then false
  else
    match m.mode with
    | .fixed => wasSite ≠ none ∧ wasSite = m.activeSiteName
    | .surveyIn => !(.svinMinDurationS ∈ changed || .svinAccLimitM ∈ changed)
    | .off => true

/-- The manager that `_apply_live` moves to the settings. -/
def moved (m : BaseModeManager) (s : Settings) : BaseModeManager :=
  { m with
    mode := s.baseMode
    svinMinDurationS := s.svinMinDurationS
    svinAccLimitM := s.svinAccLimitM
    activeSiteName := s.activeSite }

/-- `_apply_live`. -/
def applyLive (d : Daemon) (candidate : Settings) (changed : List LiveKey)
    (answers : ℕ → Answer) : Daemon :=
  let settings := d.settings.assign candidate changed
  let d' := { d with settings, manager := moved d.manager settings }
  if alreadyApplied d'.manager d.manager.mode (d.manager.appliedSite.map Site.name) changed then d'
  else (d'.perform answers BaseModeManager.applyMode).2

variable [PyText]

/-- The keys `apply_settings_change` counts as changed. -/
def changedKeys (d : Daemon) (candidate : Settings) (targets : List (LiveKey × String)) :
    List LiveKey :=
  (targets.filter fun (key, target) =>
    !candidate.same d.settings key || (d.env key).any (· ≠ target)).map Prod.fst

/-- `PUT /api/base/mode` : `apply_settings_change` of the body. -/
def putMode (d : Daemon) (body : ModeBody) (answers : ℕ → Answer) : Except HttpError Daemon := do
  let candidate ← d.settings.validated body
  let targets ← envValues candidate (LiveKey.all.filter body.posts)
  let changed := d.changedKeys candidate targets
  if changed = [] then return d
  if candidate.baseMode = .fixed ∧ (.baseMode ∈ changed ∨ .activeSite ∈ changed) ∧
      resolveFixedSite d.sites candidate.activeSite = none then
    throw ⟨409, noSiteDetail⟩
  return { d with env := updateEnv d.env targets }.applyLive candidate changed answers

end Routes

/-! ## Runs -/

inductive Event
  | putMode (body : ModeBody)
  | activateSite (name : String)
  | restartSurvey
  /-- `mtrtk sites activate`, and `add` and `delete`, from the CLI or the API. -/
  | sitesActivate (name : String)
  | sitesAdd (site : Site)
  | sitesDelete (name : String)
  | poll
  | reconnect

/-- What an event makes of the daemon, with the answers of the receiver to its writes. What
is refused changes nothing. -/
def next [Pyubx2] [PyText] (d : Daemon) : Event → (ℕ → Answer) → Daemon
  | .putMode body, answers => (d.putMode body answers).toOption.getD d
  | .activateSite name, answers => (d.activateSite name answers).toOption.getD d
  | .restartSurvey, answers => ((d.restartSurvey answers).toOption.map Prod.snd).getD d
  | .sitesActivate name, _ => ((d.sites.activate name).map fun r => { d with sites := r.2 }).getD d
  | .sitesAdd site, _ => ((d.sites.add site).map fun sites => { d with sites }).getD d
  | .sitesDelete name, _ => ((d.sites.delete name).map fun sites => { d with sites }).getD d
  | .poll, answers => d.poll answers
  | .reconnect, answers => d.reconnect answers

def step [Pyubx2] [PyText] (d : Daemon) (e : Event × (ℕ → Answer)) : Option Daemon :=
  some (d.next e.1 e.2)

end Daemon

end Mtrtk
