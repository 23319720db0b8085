import Mathlib.Data.String.Basic
import CodeStory.Lib.Encoding
import CodeStory.Lib.Fnv
import CodeStory.Lib.Selection
import CodeStory.Lib.SortedMap
import CodeStory.Lib.UnixPath
import CodeStory.Lib.Utf8Text

/-!
# Keys of cached index artifacts

`cache.rs`: what `build_index_artifact_cache_key` feeds to its hash. The bytes of the parts follow
one another with nothing between them, so two inputs with the same bytes are the same only when
they are cut at the same places. Paths are UTF-8; the grammar of a language is left out.
-/

set_option autoImplicit false

namespace CodeStory.Indexer

open Utf8Text (Text encode byteLen)

structure LanguageConfig where
  languageName : String
  graphQuery : String
  tagsQuery : Option String
  deriving DecidableEq

inductive CxxStandard where
  | c89 | c99 | c11 | c17 | c23 | cxx98 | cxx03 | cxx11 | cxx14 | cxx17 | cxx20 | cxx23
  deriving DecidableEq, Repr

structure CompilationInfo where
  file : UnixPath
  workingDirectory : UnixPath
  includePaths : List UnixPath
  systemIncludePaths : List UnixPath
  defines : SortedMap String (Option String)
  standard : Option CxxStandard
  otherFlags : List String

/-- What a key is built from, for one workspace root. -/
structure ArtifactInput where
  cachePath : UnixPath
  sourceBytes : List UInt8
  language : LanguageConfig
  compilationInfo : Option CompilationInfo
  legacyEdgeIdentity : Bool
  lazyGraphExecution : Bool

/-! ## Portable forms -/

/-- A path below the root by its names; none of them is the root itself, `.`. -/
abbrev Portable := List FileName

def portableStep (portable : Option Portable) : UnixPath.Component → Option Portable
  | .normal name => portable.map (· ++ [name])
  | .curDir => portable
  | .parentDir | .rootDir => none

def indexArtifactCachePath (root path : UnixPath) : Option Portable := do
  let relative ← if path.absolute then path.stripPrefix root else some path
  relative.components.foldl portableStep (some [])

def Portable.text (path : Portable) : Text :=
  match path with
  | [] => ['.']
  | name :: rest => name.text.toList ++ rest.flatMap fun name => '/' :: name.text.toList

def isSeparator (c : Char) : Bool := c = '/' || c = '\\'

def isAsciiAlphabetic (c : Char) : Bool := ('a' ≤ c && c ≤ 'z') || ('A' ≤ c && c ≤ 'Z')

def isStandaloneSlashRootPathLike (flag : Text) : Bool :=
  match flag with
  | c :: rest => isSeparator c && rest.any isSeparator
  | [] => false

def isWindowsAbsolutePathLike : Text → Bool
  | a :: b :: c :: _ => isAsciiAlphabetic a && b = ':' && isSeparator c
  | _ => false

def startsWithAbsolutePathLike (value : Text) : Bool :=
  (value.head?.any isSeparator) || isWindowsAbsolutePathLike value

def contains (t pattern : Text) : Bool := t.tails.any fun tail => pattern.isPrefixOf tail

def hasUnportableEmbeddedAbsolutePath (flag : Text) : Bool :=
  contains flag "=/".toList || contains flag "=\\".toList ||
    flag.tails.any isWindowsAbsolutePathLike ||
    ["-include", "-imacros", "-include-pch", "-isysroot"].any fun option =>
      option.toList.isPrefixOf flag && startsWithAbsolutePathLike (flag.drop option.toList.length)

def portableCompileFlag (root : UnixPath) (flag : String) : Option Text :=
  let path := UnixPath.ofText flag
  if path.absolute then
    (indexArtifactCachePath root path).map fun portable => "path:".toList ++ portable.text
  else if isStandaloneSlashRootPathLike flag.toList then none
  else if root.text ≠ "" ∧ contains flag.toList root.text.toList = true then none
  else if hasUnportableEmbeddedAbsolutePath flag.toList then none
  else some ("flag:".toList ++ flag.toList)

/-- Compilation info with its paths and flags in portable form. -/
structure PortableInfo where
  file : Portable
  workingDirectory : Portable
  standard : Option CxxStandard
  includePaths : List Portable
  systemIncludePaths : List Portable
  defines : List (String × Option String)
  otherFlags : List Text
  deriving DecidableEq

def CompilationInfo.portable (root : UnixPath) (info : CompilationInfo) : Option PortableInfo := do
  let file ← indexArtifactCachePath root info.file
  let workingDirectory ← indexArtifactCachePath root info.workingDirectory
  let includePaths ← info.includePaths.mapM (indexArtifactCachePath root)
  let systemIncludePaths ← info.systemIncludePaths.mapM (indexArtifactCachePath root)
  let otherFlags ← info.otherFlags.mapM (portableCompileFlag root)
  some
    { file := file
      workingDirectory := workingDirectory
      standard := info.standard
      includePaths := includePaths
      systemIncludePaths := systemIncludePaths
      defines := info.defines.entries
      otherFlags := otherFlags }

def comparePortable (left right : Portable) : Ordering :=
  compare (left.map (·.text)) (right.map (·.text))

/-- The order in which the parts of the lists are mixed. -/
def PortableInfo.sorted (info : PortableInfo) : PortableInfo :=
  { info with
    includePaths := Selection.sortBy comparePortable info.includePaths
    systemIncludePaths := Selection.sortBy comparePortable info.systemIncludePaths
    otherFlags := Selection.sortBy compare info.otherFlags }

structure PortableInput where
  cachePath : Portable
  sourceBytes : List UInt8
  language : LanguageConfig
  legacyEdgeIdentity : Bool
  lazyGraphExecution : Bool
  compilationInfo : Option PortableInfo
  deriving DecidableEq

def portableInfo (root : UnixPath) (info : Option CompilationInfo) : Option (Option PortableInfo) :=
  match info with
  | none => some none
  | some info => (info.portable root).map some

def ArtifactInput.portable (root : UnixPath) (input : ArtifactInput) : Option PortableInput := do
  let cachePath ← indexArtifactCachePath .empty input.cachePath
  let compilationInfo ← portableInfo root input.compilationInfo
  some
    { cachePath := cachePath
      sourceBytes := input.sourceBytes
      language := input.language
      legacyEdgeIdentity := input.legacyEdgeIdentity
      lazyGraphExecution := input.lazyGraphExecution
      compilationInfo := compilationInfo }

/-! ## Mixing -/

def mixStr (value : String) : List UInt8 := encode value.toList

def mixBool (value : Bool) : List UInt8 := [if value then 1 else 0]

def mixOptionalStr (value : Option String) : List UInt8 :=
  match value with
  | none => [0]
  | some value => 1 :: mixStr value

/-- The text of a path with all its separators forward. -/
def mixPath (path : Portable) : List UInt8 :=
  encode (path.text.map fun c => if c = '\\' then '/' else c)

def CxxStandard.name : CxxStandard → String
  | .c89 => "c89"
  | .c99 => "c99"
  | .c11 => "c11"
  | .c17 => "c17"
  | .c23 => "c23"
  | .cxx98 => "c++98"
  | .cxx03 => "c++03"
  | .cxx11 => "c++11"
  | .cxx14 => "c++14"
  | .cxx17 => "c++17"
  | .cxx20 => "c++20"
  | .cxx23 => "c++23"

def mixDefine (define : String × Option String) : List UInt8 :=
  mixStr define.1 ++ mixOptionalStr define.2

def mixSorted (info : PortableInfo) : List UInt8 :=
  mixPath info.file ++ (mixPath info.workingDirectory ++
    (mixOptionalStr (info.standard.map CxxStandard.name) ++ (info.includePaths.flatMap mixPath ++
      (info.systemIncludePaths.flatMap mixPath ++ (info.defines.flatMap mixDefine ++
        info.otherFlags.flatMap encode)))))

def mixCompilationInfo (info : Option PortableInfo) : List UInt8 :=
  match info with
  | none => [0]
  | some info => 1 :: mixSorted info.sorted

def indexArtifactCacheVersion : UInt32 := 2

/-- The bytes that are fed to the hash. -/
def PortableInput.mixed (input : PortableInput) : List UInt8 :=
  mixStr "index-artifact" ++ (Fnv.leBytes32 indexArtifactCacheVersion ++ (mixPath input.cachePath ++
    (input.sourceBytes ++ (mixStr input.language.languageName ++
      (mixStr input.language.graphQuery ++ (mixOptionalStr input.language.tagsQuery ++
        (mixBool input.legacyEdgeIdentity ++ (mixBool input.lazyGraphExecution ++
          mixCompilationInfo input.compilationInfo))))))))

def buildIndexArtifactCacheKey (root : UnixPath) (input : ArtifactInput) : Option Text :=
  (input.portable root).map fun portable =>
    "v2:".toList ++ Fnv.hex16 (Fnv.mixBytes Fnv.offsetBasis portable.mixed)

/-! ## Layouts -/

def portableLayout (path : Portable) : List Nat := path.map fun name => byteLen name.text.toList

def textLayout (value : String) : Nat := byteLen value.toList

structure InfoLayout where
  file : List Nat
  workingDirectory : List Nat
  standard : Option Nat
  includePaths : List (List Nat)
  systemIncludePaths : List (List Nat)
  defines : List (Nat × Option Nat)
  otherFlags : List Nat
  deriving DecidableEq

/-- The lengths of the parts, in the order in which they are mixed. -/
structure InputLayout where
  cachePath : List Nat
  sourceBytes : Nat
  languageName : Nat
  graphQuery : Nat
  tagsQuery : Option Nat
  compilationInfo : Option InfoLayout
  deriving DecidableEq

def PortableInfo.layout (info : PortableInfo) : InfoLayout where
  file := portableLayout info.file
  workingDirectory := portableLayout info.workingDirectory
  standard := info.standard.map fun standard => textLayout standard.name
  includePaths := info.includePaths.map portableLayout
  systemIncludePaths := info.systemIncludePaths.map portableLayout
  defines := info.defines.map fun define => (textLayout define.1, define.2.map textLayout)
  otherFlags := info.otherFlags.map byteLen

def PortableInput.layout (input : PortableInput) : InputLayout where
  cachePath := portableLayout input.cachePath
  sourceBytes := input.sourceBytes.length
  languageName := textLayout input.language.languageName
  graphQuery := textLayout input.language.graphQuery
  tagsQuery := input.language.tagsQuery.map textLayout
  compilationInfo := input.compilationInfo.map fun info => info.sorted.layout

/-- The same info up to the order of each of its lists. -/
structure SameInfo (info info' : PortableInfo) : Prop where
  file : info.file = info'.file
  workingDirectory : info.workingDirectory = info'.workingDirectory
  standard : info.standard = info'.standard
  includePaths : info.includePaths.Perm info'.includePaths
  systemIncludePaths : info.systemIncludePaths.Perm info'.systemIncludePaths
  defines : info.defines = info'.defines
  otherFlags : info.otherFlags.Perm info'.otherFlags

structure SameInput (input input' : PortableInput) : Prop where
  cachePath : input.cachePath = input'.cachePath
  sourceBytes : input.sourceBytes = input'.sourceBytes
  language : input.language = input'.language
  legacyEdgeIdentity : input.legacyEdgeIdentity = input'.legacyEdgeIdentity
  lazyGraphExecution : input.lazyGraphExecution = input'.lazyGraphExecution
  compilationInfo : Option.Rel SameInfo input.compilationInfo input'.compilationInfo

end CodeStory.Indexer
