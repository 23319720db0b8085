import CodeStory.Lib.Fnv
import CodeStory.Lib.Text
import CodeStory.Lib.Utf8Text
import Mathlib.Data.List.DropRight
import Mathlib.Algebra.Ring.Nat

/-!
# The identity of a remote

`parse_repository_identity_v2` and what it peels off a Git remote: user, host, port and path, in the
form of a URL or of `scp`. The calls of `git` and the first version of the identity are left out.
-/

set_option autoImplicit false

namespace CodeStory.Workspace

open Utf8Text (Text encode)
open Text (splitOnce rsplitOnce splitOnceText stripPrefix stripSuffix trimChars)

structure NormalizedRepositoryIdentity where
  canonical : Text
  deriving DecidableEq

def asciiLower (t : Text) : Text := t.map Char.toLower

/-- `trim_end_matches('/')` -/
def trimEndSlashes (t : Text) : Text := t.rdropWhile (· = '/')

def normalizeRepositoryPath (value : Text) : Option Text :=
  let normalized := trimEndSlashes value
  let normalized := match stripSuffix ".git".toList normalized with
    | some front => trimEndSlashes front
    | none => normalized
  if normalized = [] then none else some normalized

def stripUserinfo (value : Text) : Text :=
  match splitOnce '@' value with
  | some (_, rest) => rest
  | none => value

/-- `str::parse::<u16>` -/
def parseU16 (raw : Text) : Option Nat :=
  let digits := if raw.head? = some '+' then raw.tail else raw
  if digits = [] ∨ !digits.all Char.isDigit then none
  else
    let n := Nat.ofDigitChars 10 digits 0
    if n < 2 ^ 16 then some n else none

def validPort (port : Text) : Option Text :=
  match parseU16 port with
  | some n => if n ≠ 0 then some (Nat.toDigits 10 n) else none
  | none => none

def splitHostPort (authority : Text) : Option (Text × Option Text) :=
  if authority.head? = some '[' then
    match splitOnce ']' authority with
    | none => none
    | some (front, suffix) =>
      if suffix = [] then some (front ++ [']'], none)
      else
        match stripPrefix [':'] suffix with
        | none => none
        | some port => (validPort port).map fun port => (front ++ [']'], some port)
  else
    match rsplitOnce ':' authority with
    | some (host, port) => (validPort port).map fun port => (host, some port)
    | none => some (authority, none)

def defaultPort (scheme : Text) : Option Text :=
  if scheme = "http".toList then some "80".toList
  else if scheme = "https".toList then some "443".toList
  else if scheme = "ssh".toList then some "22".toList
  else if scheme = "git".toList then some "9418".toList
  else none

/-- Scheme, host, port and path of what a remote is read as. -/
structure RemoteParts where
  scheme : Text
  host : Text
  port : Option Text
  path : Text
  deriving DecidableEq

def normalizeUrlRepositoryIdentity (scheme rest : Text) : Option RemoteParts :=
  let scheme := asciiLower scheme
  if scheme = "file".toList then none
  else
    match splitOnce '/' (stripUserinfo rest) with
    | none => none
    | some (authority, path) =>
      match splitHostPort authority with
      | none => none
      | some (host, explicitPort) =>
        some ⟨scheme, host, explicitPort.or (defaultPort scheme), path⟩

def splitScpHostPath (value : Text) : Option (Text × Text) :=
  if value.head? = some '[' then
    match splitOnce ']' value with
    | none => none
    | some (front, suffix) =>
      match stripPrefix [':'] suffix with
      | none => none
      | some path => if path ≠ [] then some (front ++ [']'], path) else none
  else
    match splitOnce ':' value with
    | none => none
    | some (host, path) => if '/' ∉ host ∧ path ≠ [] then some (host, path) else none

def normalizeScpRepositoryIdentity (value : Text) : Option RemoteParts :=
  match splitScpHostPath (stripUserinfo value) with
  | none => none
  | some (host, path) =>
    let path := if path.head? = some '/' ∨ path.head? = some '~' then path
      else "~/".toList ++ path
    some ⟨"ssh".toList, host, some "22".toList, path⟩

/-- White space around the remote is dropped, and backslashes are read as slashes. -/
def tidy (remote : Text) : Text := (trimChars remote).map fun c => if c = '\\' then '/' else c

/-- Paths of the local machine. -/
def isLocal : Text → Bool
  | [] => true
  | '/' :: _ => true
  | '.' :: '/' :: _ => true
  | '.' :: '.' :: '/' :: _ => true
  | c :: ':' :: _ => c.isAlpha
  | _ => false

def canonicalOf (parts : RemoteParts) (path : Text) : Text :=
  match parts.port with
  | some port => parts.scheme ++ "://".toList ++ parts.host ++ ":".toList ++ port ++
    "/".toList ++ path
  | none => parts.scheme ++ "://".toList ++ parts.host ++ "/".toList ++ path

/-- The parts of a text that is not local, and whether it is a URL. -/
def remoteParts (value : Text) : Option (RemoteParts × Bool) :=
  match splitOnceText "://".toList value with
  | some (scheme, rest) =>
    (normalizeUrlRepositoryIdentity scheme rest).map fun parts => (parts, true)
  | none => (normalizeScpRepositoryIdentity value).map fun parts => (parts, false)

def parseRepositoryIdentityV2 (remote : Text) : Option NormalizedRepositoryIdentity :=
  let value := tidy remote
  if isLocal value then none
  else
    match remoteParts value with
    | none => none
    | some (parts, isUrl) =>
      let host := asciiLower parts.host
      if host = [] then none
      else
        let path := if isUrl then parts.path else (stripPrefix ['/'] parts.path).getD parts.path
        match normalizeRepositoryPath path with
        | none => none
        | some path =>
          some ⟨canonicalOf { parts with scheme := asciiLower parts.scheme, host := host } path⟩

/-! ## Repository ids -/

def repositoryIdentityV2SchemaVersion : UInt32 := 2

/-- The bytes that are hashed. -/
def repositoryIdBytes (schemaVersion : UInt32) (identity : Text) : List UInt8 :=
  encode "codestory-repository-identity".toList ++ Fnv.leBytes32 schemaVersion ++ encode identity

def versionedRepositoryId (schemaVersion : UInt32) (identity : Text) : Text :=
  "repo-v".toList ++ Nat.toDigits 10 schemaVersion.toNat ++ "-".toList ++
    Fnv.hex16 (Fnv.mixBytes Fnv.offsetBasis (repositoryIdBytes schemaVersion identity))

def canonicalRepositoryIdV2 (identity : Text) : Text :=
  versionedRepositoryId repositoryIdentityV2SchemaVersion identity

/-- The id that is inspected for a remote. -/
def canonicalRepositoryId (remote : Text) : Option Text :=
  (parseRepositoryIdentityV2 remote).map fun identity => canonicalRepositoryIdV2 identity.canonical

end CodeStory.Workspace
