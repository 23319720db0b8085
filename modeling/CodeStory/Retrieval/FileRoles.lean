import CodeStory.Retrieval.QueryCache

/-!
# Roles of files

`FileRole::classify_path` and what of `std::path` the retrieval lanes ask about a path that is
given as text: its file name, stem and extension.
-/

set_option autoImplicit false

namespace CodeStory.Retrieval

/-- `str::contains` -/
def containsText (text part : List Char) : Bool := text.tails.any part.isPrefixOf

/-- `str::rfind` with what follows the match. -/
def rfind (part : List Char) : List Char → Option (Nat × List Char)
  | [] => none
  | c :: rest =>
    match rfind part rest with
    | some (index, after) => some (index + 1, after)
    | none => if part.isPrefixOf (c :: rest) then some (0, (c :: rest).drop part.length) else none

/-- `split_once('/')`, the part after the separator. -/
def afterSlash (text : List Char) : Option (List Char) :=
  match text.dropWhile (· ≠ '/') with
  | [] => none
  | _ :: rest => some rest

/-- `replace('\\', "/")` -/
def forwardSlashes (text : List Char) : List Char := text.map fun c => if c = '\\' then '/' else c

def repositoryMarkers : List String := ["/source/repos/", "source/repos/", "/repos/", "repos/"]

/-- One turn of the loop over the markers. -/
def considerMarker (normalized : List Char) (best : Option (Nat × List Char)) (marker : String) :
    Option (Nat × List Char) :=
  match rfind marker.toList normalized with
  | none => best
  | some (index, remainder) =>
    match afterSlash remainder with
    | none => best
    | some repoRelative =>
      if best.all fun (bestIndex, _) => index > bestIndex then some (index, repoRelative) else best

def lastSegment (text : List Char) : List Char := afterLast ['/'] text

def FileRole.classifyPath (path : String) : FileRole :=
  let lowered := asciiLower (forwardSlashes path.toList)
  let normalized := ((repositoryMarkers.foldl (considerMarker lowered) none).map (·.2)).getD lowered
  let marked := '/' :: normalized
  let fileName := lastSegment normalized
  let within := fun part : String => containsText marked part.toList
  let named := fun part : String => containsText fileName part.toList
  let ending := fun tail : String => tail.toList.isSuffixOf fileName
  if ["/node_modules/", "/vendor/", "/third_party/", "/third-party/", "/external/"].any within then
    .vendor
  else if ["/target/", "/dist/", "/build/", "/generated/", "/schema/typescript/",
      ".generated."].any within || ending ".g.cs" || named "payload-types" then
    .generated
  else if ["/tests/", "/test/", "/spec/", "/fixtures/", "/__tests__/", "-test-client/",
      "_test_client/"].any within || [".test.", ".spec."].any named ||
      ["_test.rs", "_tests.rs", "_test.py", "_tests.py", "_test.ts", "_tests.ts", "_test.tsx",
        "_tests.tsx"].any ending then
    .test
  else if ["/docs/", "/doc/"].any within ||
      (["readme.md", "changelog.md"].map String.toList).contains fileName then
    .docs
  else if ["/benchmarks/", "/benchmark/", "/benches/", "/bench/"].any within then .benchmark
  else if (["main.rs", "lib.rs", "mod.rs", "main.ts", "main.tsx", "main.js", "main.jsx",
      "index.ts", "index.tsx", "index.js", "index.jsx"].map String.toList).contains fileName then
    .entrypoint
  else .source

/-- `Path::file_name`: the last component, unless it is `..` or there is none. -/
def pathFileName (path : List Char) : Option (List Char) :=
  ((path.splitOnP (· = '/')).filter fun segment => segment ≠ [] ∧ segment ≠ ['.']).getLast?.filter
    (· ≠ ['.', '.'])

/-- The name before its last `.` and after it; a name whose only `.` is in front has no such
parts. -/
def splitAtDot (name : List Char) : Option (List Char × List Char) :=
  match rfind ['.'] name with
  | none => none
  | some (0, _) => none
  | some (index, after) => some (name.take index, after)

def pathFileStem (path : List Char) : Option (List Char) :=
  (pathFileName path).map fun name => ((splitAtDot name).map (·.1)).getD name

def pathExtension (path : List Char) : Option (List Char) :=
  (pathFileName path).bind fun name => (splitAtDot name).map (·.2)

end CodeStory.Retrieval
