import ReverseMcp.Core.Discovery
import ReverseMcp.Rust.Merge

/-!
# Installations

`rmcp_core::discovery` and `rmcp_core::backend_registry`: what an installation is, how the sources
are merged into the list of all installations, and which one of them is selected.

What the code asks the operating system, and what each source comes up with, are the fields of
`Machine`.
-/

namespace ReverseMcp

open Rust

/-! ## Versions and backends -/

/-- Versions are compared number by number. -/
def Version.key (v : Version) : U32 ×ₗ U32 ×ₗ U32 := toLex (v.major, toLex (v.minor, v.build))

lemma Version.key_injective : Function.Injective Version.key := by
  rintro ⟨major, minor, build⟩ ⟨major', minor', build'⟩ h
  cases h
  rfl

instance instLinearOrderVersion : LinearOrder Version :=
  LinearOrder.lift' Version.key Version.key_injective

instance transOrdVersion : Std.TransOrd Version := inferInstance

/-- `Version::backend_key`. -/
def Version.backend_key (v : Version) : String := s!"{v.major.val}_{v.minor.val}"

/-- `backend_registry::BackendManifest`. -/
structure BackendManifest where
  key : String
  verified : Bool

/-- `backend_registry::KNOWN_BACKENDS`. -/
def KNOWN_BACKENDS : List BackendManifest := [⟨"9_2", true⟩, ⟨"9_4", true⟩]

/-- `backend_registry::manifest_for`. -/
def manifest_for (key : String) : Option BackendManifest :=
  KNOWN_BACKENDS.find? fun m => m.key = key

/-- `backend_registry::verified_keys`. -/
def verified_keys : List String :=
  (KNOWN_BACKENDS.filter fun m => m.verified).map fun m => m.key

/-- `discovery::BackendStatus`. -/
inductive BackendStatus where
  | ready
  | availableUnverified
  | unavailable
deriving DecidableEq

/-- `Debug` of a backend status. -/
def BackendStatus.debug : BackendStatus → String
  | ready => "Ready"
  | availableUnverified => "AvailableUnverified"
  | unavailable => "Unavailable"

/-- `discovery::backend_status`. -/
def backend_status (v : Version) : BackendStatus :=
  match manifest_for v.backend_key with
  | some m => if m.verified then .ready else .availableUnverified
  | none => .unavailable

/-! ## Paths -/

/-- The systems that the code is built for. -/
inductive Os where
  | windows
  | macos
  | linux
deriving DecidableEq

/-- `PathBuf`, by its components; `base` is the root or the drive that they start from. -/
structure PathBuf where
  base : String
  parts : List String
deriving DecidableEq

namespace PathBuf

/-- `Path::join` of a file name. -/
def join (p : PathBuf) (name : String) : PathBuf := { p with parts := p.parts ++ [name] }

/-- `Path::ancestors` without the path itself. -/
def ancestors (p : PathBuf) : List PathBuf :=
  p.parts.inits.reverse.tail.map fun parts => { p with parts }

/-- `Path::file_name`. -/
def file_name (p : PathBuf) : Option String :=
  p.parts.getLast?.filter fun name => name ≠ "." ∧ name ≠ ".."

/-- `Path::display`. -/
def display (os : Os) (p : PathBuf) : String :=
  p.base ++ String.intercalate (if os = .windows then "\\" else "/") p.parts

end PathBuf

/-! ## Installations -/

/-- `discovery::Arch`. -/
inductive Arch where
  | x64
  | arm64
deriving DecidableEq

/-- `discovery::Decompiler`. -/
structure Decompiler where
  name : String
  path : PathBuf
deriving DecidableEq

/-- `discovery::DiscoverySource`. -/
inductive DiscoverySource where
  | explicit
  | envVar
  | config
  | osNative
  | commonPaths
  | regHint
  | driveScan
deriving DecidableEq

/-- `discovery::IdaInstallation`. -/
structure IdaInstallation where
  root : PathBuf
  version : Version
  arch : Arch
  idalib : PathBuf
  ida : PathBuf
  decompilers : List Decompiler
  source : DiscoverySource
  backend : BackendStatus
deriving DecidableEq

/-- `IdaInstallation::backend_ready`. -/
def IdaInstallation.backend_ready (i : IdaInstallation) : Bool := i.backend == .ready

/-- `discovery::RuntimePaths`. -/
structure RuntimePaths where
  ida : String
  idalib : String
  decompilers : List String

/-- `discovery::runtime_paths`. -/
def runtime_paths : Os → RuntimePaths
  | .windows =>
    { ida := "ida.dll"
      idalib := "idalib.dll"
      decompilers := ["hexx64.dll", "hexarm64.dll", "hexarm.dll", "hexmips.dll", "hexppc.dll",
        "hexarc.dll", "hexrv.dll", "hexrays.dll"] }
  | .macos =>
    { ida := "libida.dylib"
      idalib := "libidalib.dylib"
      decompilers := ["libhexx64.dylib", "libhexarm64.dylib"] }
  | .linux =>
    { ida := "libida.so"
      idalib := "libidalib.so"
      decompilers := ["libhexx64.so", "libhexarm64.so"] }

/-- `discovery::detect_arch`. -/
def detect_arch (_root : PathBuf) : Arch := .x64

/-- `trim_end_matches(".dll")`, on the reversed text. -/
def trimDll : List Char → List Char
  | 'l' :: 'l' :: 'd' :: '.' :: cs => trimDll cs
  | cs => cs

/-! ## Versions in names -/

/-- The version that a run of digits and dots is. -/
def versionOfRun (run : List Char) : Option Version :=
  if run.contains '.' then
    match (splitChars '.' run).filterMap fun p => (fromStrRadix (2 ^ 32) 10 p).toOption with
    | major :: minor :: rest =>
      if 7 ≤ major.val then some { major, minor, build := rest.head?.getD 0 } else none
    | _ => none
  else none

/-- The loop of `version_from_name`, with the run of digits and dots that it is in.  A dot belongs
to the run if a digit follows. -/
def versionIn (run : List Char) : List Char → Option Version
  | [] => versionOfRun run
  | c :: cs =>
    if c.isDigit || (c == '.' && !run.isEmpty && cs.head?.any Char.isDigit) then
      versionIn (run ++ [c]) cs
    else (versionOfRun run).or (versionIn [] cs)

/-- `discovery::version_from_name`. -/
def version_from_name [Host] (name : String) : Option Version :=
  versionIn [] (Host.toLowercase name).toList

/-! ## Discovery -/

/-- The machine as discovery sees it: its files, the version resources and the registry of Windows,
and the candidates of each source. -/
structure Machine where
  os : Os
  is_file : PathBuf → Bool
  canonicalize : PathBuf → Option PathBuf
  pe_file_version : PathBuf → Option Version
  registry_version_for_dir : PathBuf → Option Version
  idadir : Option PathBuf
  ida_config_dirs : List PathBuf
  os_native_candidates : List (PathBuf × Option String)
  common_paths : List PathBuf
  reg_hint_candidates : List PathBuf
  cached_drive_scan : Option PathBuf

/-- The accumulators of `discover_all`. -/
structure Discovered where
  out : List IdaInstallation
  seen : List PathBuf

namespace Machine

variable [Host] (m : Machine)

/-- `discovery::detect_version`. -/
def detect_version (root : PathBuf) (source_hint : Option String) : Option Version :=
  let rt := runtime_paths m.os
  let resource :=
    if m.os = .windows then
      ((m.pe_file_version (root.join rt.idalib)).or (m.pe_file_version (root.join rt.ida))).or
        (m.registry_version_for_dir root)
    else none
  let hints := root.file_name.toList ++ source_hint.toList
  resource.or (hints.findSome? version_from_name)

/-- `discovery::validate`. -/
def validate (root : PathBuf) (source : DiscoverySource) (hint : Option String) :
    Result IdaInstallation :=
  let rt := runtime_paths m.os
  let ida := root.join rt.ida
  let idalib := root.join rt.idalib
  if !m.is_file ida || !m.is_file idalib then
    .err (.idaNotFound (s!"{root.display m.os} is not a valid IDA install " ++
      s!"(missing {rt.ida} or {rt.idalib})"))
  else
    let version := (m.detect_version root hint).getD { major := 0, minor := 0, build := 0 }
    let decompilers := [root, root.join "plugins"].flatMap fun dir =>
      rt.decompilers.filterMap fun name =>
        if m.is_file (dir.join name) then
          some { name := String.ofList (trimDll name.toList.reverse).reverse, path := dir.join name }
        else none
    .ok { root, version, arch := detect_arch root, idalib, ida, decompilers, source
          backend := backend_status version }

/-- A valid directory: the installation is there, with the version that is detected and the backend
that the registry has for it. -/
lemma validate_eq_ok {m : Machine} {root : PathBuf} {source : DiscoverySource}
    {hint : Option String} {i : IdaInstallation} (h : m.validate root source hint = .ok i) :
    i.root = root ∧ i.source = source ∧ i.backend = backend_status i.version ∧
      i.version = (m.detect_version root hint).getD { major := 0, minor := 0, build := 0 } := by
  rw [validate] at h
  dsimp only at h
  split_ifs at h
  cases h
  exact ⟨rfl, rfl, rfl, rfl⟩

/-- `root.canonicalize().unwrap_or(root)`. -/
def canonical (root : PathBuf) : PathBuf := (m.canonicalize root).getD root

/-- The closure `push` of `discover_all`. -/
def push (source : DiscoverySource) (d : Discovered) (root : PathBuf) (hint : Option String) :
    Discovered :=
  if d.seen.contains (m.canonical root) then d
  else
    match m.validate root source hint with
    | .ok inst => { out := d.out ++ [inst], seen := d.seen ++ [m.canonical root] }
    | _ => d

/-- `discovery::discover_all`. -/
def discover_all (explicit : Option PathBuf) : List IdaInstallation :=
  let d : Discovered := { out := [], seen := [] }
  let d := explicit.elim d fun root => m.push .explicit d root none
  if explicit.isSome && !d.out.isEmpty then d.out
  else
    let idadir := m.idadir.toList.flatMap fun root => root :: root.ancestors.take 2
    let d := idadir.foldl (fun d root => m.push .envVar d root none) d
    let d := m.ida_config_dirs.foldl (fun d root => m.push .config d root none) d
    let d := m.os_native_candidates.foldl (fun d c => m.push .osNative d c.1 c.2) d
    let d := m.common_paths.foldl (fun d root => m.push .commonPaths d root none) d
    let d := m.reg_hint_candidates.foldl (fun d root => m.push .regHint d root none) d
    let d := m.cached_drive_scan.elim d fun root => m.push .driveScan d root none
    sortByKey (fun i => Reverse.mk i.version) d.out

end Machine

/-! ## Selection -/

/-- `discovery::requirement_display`. -/
def requirement_display (r : IdaRequirement) : String := if r.latest then "latest" else "custom"

/-- `resolve_with` behind `discover_all`. -/
def resolveAmong (os : Os) (all : List IdaInstallation) (requirement : IdaRequirement) :
    Result IdaInstallation :=
  if all.isEmpty then .err (.idaNotFound "no IDA installation found on this machine")
  else
    let matching := all.filter fun i => requirement.matches i.version
    if matching.isEmpty then
      let available := String.intercalate "; "
        (all.map fun i => s!"IDA {i.version.text} ({i.root.display os})")
      .err (.idaVersionMismatch available
        (s!"requirement '{requirement_display requirement}' matched none of " ++
          s!"{all.length} installed version(s)"))
    else
      let best :=
        match maxByKey (fun i => i.version) (matching.filter fun i => i.backend_ready) with
        | some b => some b
        | none => if requirement.latest then maxByKey (fun i => i.version) matching else none
      let available := String.intercalate "; " (matching.map fun i =>
        s!"IDA {i.version.text} ({i.root.display os}), backend: {i.backend.debug}")
      let verified := String.intercalate ", " verified_keys
      Outcome.ofOption (Error.capabilityUnavailable "idalib"
        (s!"requirement '{requirement_display requirement}' matched {available} but no verified " ++
          s!"backend ships for it (verified: {verified}); pick another version or extend the " ++
          "backend registry")) best

/-- `discovery::resolve_with`. -/
def Machine.resolve_with [Host] (m : Machine) (explicit : Option PathBuf)
    (requirement : IdaRequirement) : Result IdaInstallation :=
  resolveAmong m.os (m.discover_all explicit) requirement

end ReverseMcp
