import FingerprintLab.Capture.Routing
import FingerprintLab.Labctl.Attempt

/-!
# Where a capture lands

`runCapture` starts the client of a target in a container.  For two kinds of targets the lab itself
chooses the server name that the client sends, and with it the directory that the server writes.

* `runCapture`            the commands of a capture, and how it fails;
* `mapID`, `builtinSNI`   the presets of `emit-builtin`, and its server name;
* `clientSNI`             the server name of a target's client;
* `captures_land`         a capture lands in the target's own directory, unless the target's id is not
                          the one that belongs to its `emit_id`.
-/

set_option linter.unusedVariables false

namespace Labctl
open Go Lab

/-! ## the commands -/

/-- a target with the fields that only the runner reads -/
structure Runner where
  target : Target
  service : Bytes := []
  emitID : Bytes := []
  wrapper : Bytes := []

/-- docker's exit status, the Dockerfiles under `clients/`, the clock and `defaults.dial` -/
structure Host where
  docker : List Bytes → Bool
  dockerfile : Bytes → Bool
  unixTime : Bytes
  dial : Bytes

inductive RunError where
  | build (svc : Bytes)
  | exit
  | noEmitID
  | noWrapper
  | unsupported (kind : Bytes)
  deriving DecidableEq, Repr

def composeArgs (args : List Bytes) : List Bytes :=
  [str "compose", str "-f", str "compose.yaml", str "--project-name", str "utls-lab"] ++ args

/-- the last command of a capture, after `before` -/
def runLast (host : Host) (before : List (List Bytes)) (args : List Bytes) :
    List (List Bytes) × Option RunError :=
  (before ++ [composeArgs args], if host.docker (composeArgs args) then none else some .exit)

def runCapture (host : Host) (r : Runner) : List (List Bytes) × Option RunError :=
  if r.target.kind = str "compose" then
    let svc := if r.service = [] then r.target.id else r.service
    if r.target.imagePolicy = imagePull then
      let run := [str "run", str "--rm", str "--pull", str "always", svc]
      if host.dockerfile svc then
        let build := composeArgs [str "build", str "--pull", str "--build-arg",
          str "CACHEBUST=" ++ host.unixTime, svc]
        if host.docker build then runLast host [build] run else ([build], some (.build svc))
      else runLast host [] run
    else runLast host [] [str "run", str "--rm", str "--build", svc]
  else if r.target.kind = str "emit-builtin" then
    if r.emitID = [] then ([], some .noEmitID)
    else
      runLast host [] [str "run", str "--rm", str "--no-deps", str "--entrypoint",
        str "emit-builtin", str "tools", str "-id", r.emitID, str "-dial", host.dial]
  else if r.target.kind = str "curl-impersonate" then
    if r.wrapper = [] then ([], some .noWrapper)
    else
      runLast host [] ([str "run", str "--rm", str "-e", str "TARGET_ID=" ++ r.target.id, str "-e",
          str "WRAP=" ++ r.wrapper]
        ++ (if r.target.imagePolicy = imagePull then [str "--pull", str "always"] else [])
        ++ [str "curl-impersonate-one"])
  else ([], some (.unsupported r.target.kind))

/-! ## `emit-builtin` -/

/-- the presets of the TLS library -/
inductive HelloID where
  | chromeAuto | chrome120 | chrome131 | chrome133 | firefoxAuto | firefox120 | edgeAuto | edge85
  | edge106 | safariAuto | iosAuto | android11OkHttp | h360Auto | qqAuto | randomized
  deriving DecidableEq, Repr

/-- the cases of `mapID` -/
def builtins : List (Bytes × HelloID) :=
  [(str "chrome", .chromeAuto), (str "chrome_auto", .chromeAuto), (str "chrome_120", .chrome120),
    (str "chrome_131", .chrome131), (str "chrome_133", .chrome133), (str "firefox", .firefoxAuto),
    (str "firefox_auto", .firefoxAuto), (str "firefox_120", .firefox120), (str "edge", .edgeAuto),
    (str "edge_auto", .edgeAuto), (str "edge_85", .edge85), (str "edge_106", .edge106),
    (str "safari", .safariAuto), (str "ios", .iosAuto), (str "android", .android11OkHttp),
    (str "360", .h360Auto), (str "qq", .qqAuto), (str "randomized", .randomized)]

def mapID (name : Bytes) : Option HelloID := builtins.lookup (toLower name)

/-- its own `sanitizeID`: lower case, and a dash for each underscore -/
def dashed (name : Bytes) : Bytes := (toLower name).map fun b => if b = 0x5f then 0x2d else b

/-- the default of `-sni` -/
def builtinSNI (name : Bytes) : Bytes := str "builtin-" ++ dashed name ++ str ".fp.lab.local"

def knownIDs : List Bytes :=
  [str "chrome", str "chrome_auto", str "chrome_120", str "chrome_131", str "chrome_133",
    str "firefox", str "firefox_120", str "edge", str "edge_85", str "edge_106", str "safari",
    str "ios", str "android", str "360", str "qq", str "randomized"]

/-- The server name of the client, where the lab chooses it; the service of `curl-impersonate` asks
for `https://$TARGET_ID.fp.lab.local:8443/`. -/
def clientSNI (r : Runner) : Option Bytes :=
  if r.target.kind = str "emit-builtin" then (mapID r.emitID).map fun _ => builtinSNI r.emitID
  else if r.target.kind = str "curl-impersonate" then some (r.target.id ++ Capture.sniSuffix)
  else none

/-! ## names -/

/-- every preset has a word for a directory, and the listed ones have presets -/
theorem builtins_words : ∀ e ∈ builtins,
    Word (str "builtin-" ++ e.1.map fun b => if b = 0x5f then 0x2d else b) := by decide +kernel

theorem lookup_mem {name : Bytes} {h : HelloID} (hm : mapID name = some h) :
    (toLower name, h) ∈ builtins := by
  obtain ⟨l₁, l₂, he, -⟩ := List.lookup_eq_some_iff.mp hm
  rw [he]
  exact List.mem_append_right l₁ List.mem_cons_self

/-- the directory of a preset, however its name is written -/
theorem word_builtin {name : Bytes} {h : HelloID} (hm : mapID name = some h) :
    Word (str "builtin-" ++ dashed name) := builtins_words _ (lookup_mem hm)

theorem builtin_ne (name : Bytes) : str "builtin-" ++ dashed name ≠ [] ∧
    str "builtin-" ++ dashed name ≠ str "unknown" := by
  refine ⟨List.append_ne_nil_of_left_ne_nil (by decide) _, fun he => ?_⟩
  have hhead : (str "builtin-" ++ dashed name).head? = some 0x62 := rfl
  rw [he] at hhead
  exact absurd hhead (by decide)

/-! ## landing -/

/-- A client with that server name is promoted to the directory, by every server, and no other
directory changes. -/
def LandsIn (sni dir : Bytes) : Prop :=
  ∀ fl c m, Capture.analyze c.rawHello = .ok m → m.sni = sni →
    ∃ p, Capture.handle fl c = some p ∧ p.id = dir ∧
      ∀ lab, ((served lab p.writes).profiles dir).hello = some c.rawHello ∧
        ∀ id, id ≠ dir → (served lab p.writes).profiles id = lab.profiles id

theorem landsIn_word {x : Bytes} (hx : Word x) (hne : x ≠ []) (hunk : x ≠ str "unknown") :
    LandsIn (x ++ Capture.sniSuffix) x := by
  intro fl c m hm hsni
  obtain ⟨p, hp, hid, hhello⟩ := Capture.routed fl hx hne hunk hm hsni
  refine ⟨p, hp, hid, fun lab => ⟨?_, fun id hother => ?_⟩⟩
  · show (p.writes.foldl Tree.apply lab.profiles x).hello = _
    rw [← hid, Capture.writes_apply, hhello]
  · refine Tree.foldl_apply_of_ne (fun w hw he => hother ?_) lab.profiles
    rw [← he, Capture.writes_id p w hw, hid]

/-- the keys of `mapID` differ in more than an underscore -/
theorem builtins_dashed : ∀ e ∈ builtins, ∀ e' ∈ builtins,
    e.1.map (fun b => if b = 0x5f then 0x2d else b) = e'.1.map (fun b => if b = 0x5f then 0x2d else b) →
      e.1 = e'.1 := by decide +kernel

/-- `-list` prints names that are taken -/
theorem knownIDs_taken : ∀ name ∈ knownIDs, (mapID name).isSome = true := by decide +kernel

theorem runLast_ne_nil (host : Host) (before : List (List Bytes)) (args : List Bytes) :
    (runLast host before args).1 ≠ [] :=
  List.append_ne_nil_of_right_ne_nil before (List.cons_ne_nil _ _)

/-- the fields that a kind needs -/
def Runnable (r : Runner) : Prop :=
  r.target.kind = str "compose" ∨ r.target.kind = str "emit-builtin" ∧ r.emitID ≠ [] ∨
    r.target.kind = str "curl-impersonate" ∧ r.wrapper ≠ []

/-- docker is started unless a field is missing or the kind is another one -/
theorem runCapture_starts (host : Host) (r : Runner) : (runCapture host r).1 ≠ [] ↔ Runnable r := by
  have hce : str "compose" ≠ str "emit-builtin" := by decide
  have hcc : str "compose" ≠ str "curl-impersonate" := by decide
  have hec : str "emit-builtin" ≠ str "curl-impersonate" := by decide
  unfold runCapture Runnable
  by_cases hcompose : r.target.kind = str "compose"
  · rw [if_pos hcompose]
    refine iff_of_true ?_ (.inl hcompose)
    dsimp only
    generalize (if r.service = [] then r.target.id else r.service) = svc
    split_ifs
    · exact runLast_ne_nil host _ _
    · exact List.cons_ne_nil _ _
    · exact runLast_ne_nil host _ _
    · exact runLast_ne_nil host _ _
  rw [if_neg hcompose]
  by_cases hemit : r.target.kind = str "emit-builtin"
  · rw [if_pos hemit]
    split
    · rename_i hid
      simp [hemit, hid, hec, hce.symm]
    · rename_i hid
      exact iff_of_true (runLast_ne_nil host _ _) (.inr (.inl ⟨hemit, hid⟩))
  rw [if_neg hemit]
  by_cases hcurl : r.target.kind = str "curl-impersonate"
  · rw [if_pos hcurl]
    split
    · rename_i hwrap
      simp [hcurl, hwrap, hec.symm, hcc.symm]
    · rename_i hwrap
      exact iff_of_true (runLast_ne_nil host _ _) (.inr (.inr ⟨hcurl, hwrap⟩))
  · rw [if_neg hcurl]
    simp [hcompose, hemit, hcurl]

/-- **Captures land.**  Docker is started exactly for a target that has the fields of its kind.  A client
whose server name the lab chooses is promoted to one directory, whatever the flags of the server are,
and to no other: to that of its target, exactly if the target is one of `curl-impersonate` or has the
id of its preset.  Two names of presets share a directory only if they differ in case alone. -/
theorem captures_land (host : Host) (r : Runner) (hw : Word r.target.id) (hne : r.target.id ≠ [])
    (hunk : r.target.id ≠ str "unknown") :
    ((runCapture host r).1 ≠ [] ↔ Runnable r) ∧
    (∀ sni, clientSNI r = some sni → ∃ dir, LandsIn sni dir ∧
      (dir = r.target.id ↔ r.target.kind = str "curl-impersonate" ∨
        r.target.id = str "builtin-" ++ dashed r.emitID)) ∧
    ∀ a b, (mapID a).isSome = true → (mapID b).isSome = true →
      (builtinSNI a = builtinSNI b ↔ toLower a = toLower b) := by
  have hec : str "emit-builtin" ≠ str "curl-impersonate" := by decide
  refine ⟨runCapture_starts host r, fun sni hs => ?_, fun a b ha hb => ?_⟩
  · unfold clientSNI at hs
    by_cases hemit : r.target.kind = str "emit-builtin"
    · rw [if_pos hemit] at hs
      obtain ⟨h, hm, rfl⟩ := Option.map_eq_some_iff.mp hs
      obtain ⟨hbne, hbunk⟩ := builtin_ne r.emitID
      refine ⟨_, landsIn_word (word_builtin hm) hbne hbunk, ?_⟩
      rw [hemit]
      simp only [hec, false_or]
      exact eq_comm
    · rw [if_neg hemit] at hs
      split at hs
      · rename_i hcurl
        rw [← Option.some.inj hs]
        exact ⟨_, landsIn_word hw hne hunk, iff_of_true rfl (.inl hcurl)⟩
      · cases hs
  · constructor
    · intro he
      obtain ⟨x, hx⟩ := Option.isSome_iff_exists.mp ha
      obtain ⟨y, hy⟩ := Option.isSome_iff_exists.mp hb
      unfold builtinSNI at he
      rw [List.append_left_inj, List.append_right_inj] at he
      exact builtins_dashed _ (lookup_mem hx) _ (lookup_mem hy) he
    · intro he
      unfold builtinSNI dashed
      rw [he]

/-- `builtin-chrome-120` with its `emit_id` in capitals -/
def chrome120Builtin : Runner where
  target :=
    { id := str "builtin-chrome-120", group := str "builtins", kind := str "emit-builtin"
      status := str "active", utlsReady := true, family := str "chrome" }
  emitID := str "CHROME_120"

theorem captures_land_chrome :
    LandsIn (str "builtin-chrome-120.fp.lab.local") chrome120Builtin.target.id := by
  have hlands := (captures_land ⟨fun _ => true, fun _ => true, [], str "capture:8443"⟩ chrome120Builtin
    (by decide) (by decide) (by decide)).2.1
  obtain ⟨dir, hdir, hid⟩ := hlands (str "builtin-chrome-120.fp.lab.local") (by decide +kernel)
  rw [← hid.mpr (.inr (by decide +kernel))]
  exact hdir

end Labctl
