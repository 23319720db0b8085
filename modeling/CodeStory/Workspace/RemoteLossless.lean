import CodeStory.Lib.Encoding
import CodeStory.Workspace.RemoteIdentity

/-!
# What a canonical remote tells

Remotes as they are written, and when two of them name one repository. The canonical text of a
remote that is read as it is written determines its scheme, host, port and path.
-/

set_option autoImplicit false

namespace CodeStory.Workspace

open Utf8Text (Text encode)
open Text (splitOnce rsplitOnce splitOnceText stripPrefix stripSuffix trimChars)

/-! ## Written remotes -/

inductive Remote where
  | url (scheme : Text) (user : Option Text) (host : Text) (port : Option Text) (path : Text)
  | scp (user : Option Text) (host path : Text)

def userText : Option Text → Text
  | some user => user ++ ['@']
  | none => []

def portText : Option Text → Text
  | some port => ':' :: port
  | none => []

/-- No separator of the written forms. -/
def Separated (t : Text) : Prop := '/' ∉ t ∧ ':' ∉ t ∧ '@' ∉ t

/-- The first `@` of a remote without a user would be in its path. -/
def NoUserInPath (user : Option Text) (path : Text) : Prop := user = none → '@' ∉ path

namespace Remote

def text : Remote → Text
  | url scheme user host port path =>
    scheme ++ "://".toList ++ (userText user ++ (host ++ portText port ++ '/' :: path))
  | scp user host path => userText user ++ (host ++ ':' :: path)

/-- The parts are what they are called. -/
def Stated : Remote → Prop
  | url scheme user host port path =>
    ':' ∉ scheme ∧ (∀ u ∈ user, Separated u) ∧ Separated host ∧
      (∀ p ∈ port, ∀ c ∈ p, c.isDigit = true) ∧ path ≠ []
  | scp user host path => (∀ u ∈ user, Separated u) ∧ Separated host ∧ path ≠ []

/-- No separator in the path comes before those of the other parts, and no text of the form of `scp`
looks like a URL or opens a bracket of an address that its host does not close. -/
def Clear : Remote → Prop
  | url _ user _ _ path => NoUserInPath user path
  | scp user host path =>
    NoUserInPath user path ∧ splitOnceText "://".toList (scp user host path).text = none ∧
      (host.head? = some '[' → ']' ∈ host)

def scheme : Remote → Text
  | url scheme _ _ _ _ => asciiLower scheme
  | scp _ _ _ => "ssh".toList

def host : Remote → Text
  | url _ _ host _ _ => host
  | scp _ host _ => host

/-- The ports of the schemes that have one. -/
def knownPort (scheme : Text) : Option Nat :=
  if scheme = "http".toList then some 80
  else if scheme = "https".toList then some 443
  else if scheme = "ssh".toList then some 22
  else if scheme = "git".toList then some 9418
  else none

def port : Remote → Option Nat
  | url scheme _ _ port _ =>
    match port with
    | some port => parseU16 port
    | none => knownPort (asciiLower scheme)
  | scp _ _ _ => some 22

/-- The path on the host: relative paths of `scp` start at the home directory. -/
def path : Remote → Text
  | url _ _ _ _ path => path
  | scp _ _ ('/' :: path) => path
  | scp _ _ ('~' :: path) => '~' :: path
  | scp _ _ path => "~/".toList ++ path

end Remote

/-- The path is the core with slashes or one `.git` at its end. -/
def Spells (core path : Text) : Prop :=
  ∃ i j, path = core ++ List.replicate i '/' ∨
    path = core ++ (List.replicate i '/' ++ (".git".toList ++ List.replicate j '/'))

structure SameRepository (r r' : Remote) : Prop where
  scheme : r.scheme = r'.scheme
  host : asciiLower r.host = asciiLower r'.host
  port : r.port = r'.port
  path : ∃ core, Spells core r.path ∧ Spells core r'.path

/-- The remote, tidied, is this text, and it is read as it is written. -/
structure Reads (remote : Text) (r : Remote) : Prop where
  text : tidy remote = r.text
  stated : r.Stated
  clear : r.Clear

/-! ## Parts -/

theorem trimEndSlashes_spec (t : Text) :
    ∃ i, t = trimEndSlashes t ++ List.replicate i '/' := by
  refine ⟨(t.rtakeWhile (· = '/')).length, ?_⟩
  have hall : ∀ c ∈ t.rtakeWhile (· = '/'), c = '/' := by
    intro c hc
    have h := List.mem_rtakeWhile_imp hc
    exact of_decide_eq_true h
  rw [← List.eq_replicate_of_mem hall]
  exact List.rdropWhile_append_rtakeWhile.symm

theorem spells_of_normalize {value core : Text} (h : normalizeRepositoryPath value = some core) :
    Spells core value := by
  obtain ⟨i, hi⟩ := trimEndSlashes_spec value
  unfold normalizeRepositoryPath at h
  dsimp only at h
  cases hstrip : stripSuffix ".git".toList (trimEndSlashes value) with
  | none =>
    rw [hstrip] at h
    dsimp only at h
    split at h
    · cases h
    · rw [Option.some.inj h] at hi
      exact ⟨i, 0, .inl hi⟩
  | some front =>
    rw [hstrip] at h
    dsimp only at h
    obtain ⟨j, hj⟩ := trimEndSlashes_spec front
    split at h
    · cases h
    · rw [Option.some.inj h] at hj
      refine ⟨j, i, .inr ?_⟩
      rw [hi, Text.stripSuffix_eq_some hstrip, hj, List.append_assoc, List.append_assoc]

theorem toLower_eq {c d : Char} (h : d.toLower = c) (hc : c.isLower = false) : d = c := by
  unfold Char.toLower at h
  split at h
  · rename_i hupper
    exfalso
    rw [← h] at hc
    unfold Char.isLower at hc
    have hlow : 65 ≤ d.toNat := UInt32.le_iff_toNat_le.mp hupper.1
    have hhigh : d.toNat ≤ 90 := UInt32.le_iff_toNat_le.mp hupper.2
    simp only [Bool.and_eq_false_imp, decide_eq_true_eq, decide_eq_false_iff_not, ge_iff_le,
      UInt32.le_iff_toNat_le, UInt32.toNat_add] at hc
    simp at hc
    omega
  · exact h

theorem not_mem_asciiLower {c : Char} {t : Text} (hc : c.isLower = false) (h : c ∉ t) :
    c ∉ asciiLower t := by
  intro hmem
  obtain ⟨d, hd, heq⟩ := List.mem_map.mp hmem
  exact h (toLower_eq heq hc ▸ hd)

theorem stripUserinfo_userText {user : Option Text} {rest : Text}
    (huser : ∀ u ∈ user, '@' ∉ u) (hrest : user = none → '@' ∉ rest) :
    stripUserinfo (userText user ++ rest) = rest := by
  unfold stripUserinfo
  cases user with
  | none =>
    have hnone : splitOnce '@' (userText none ++ rest) = none :=
      Text.splitOnce_eq_none.mpr (hrest rfl)
    rw [hnone]
    rfl
  | some u =>
    have hsplit : splitOnce '@' (userText (some u) ++ rest) = some (u, rest) := by
      unfold userText
      rw [List.append_assoc]
      exact Text.splitOnce_append (huser u rfl) rest
    rw [hsplit]

theorem validPort_eq_some {port t : Text} (h : validPort port = some t) :
    (parseU16 port).map (Nat.toDigits 10) = some t := by
  unfold validPort at h
  split at h
  · rename_i n hn
    rw [hn]
    split at h
    · exact h
    · cases h
  · cases h

/-- The authority is split where it was put together. -/
theorem splitHostPort_eq_some {host : Text} {port : Option Text} {found : Text}
    {foundPort : Option Text} (hhost : ':' ∉ host)
    (hport : ∀ p ∈ port, ∀ c ∈ p, c.isDigit = true)
    (h : splitHostPort (host ++ portText port) = some (found, foundPort)) :
    found = host ∧ foundPort = port.bind validPort ∧ (port.isSome → foundPort.isSome) := by
  have hdigits : ∀ {c : Char}, c.isDigit = false → ∀ p ∈ port, c ∉ p := by
    intro c hc p hp hmem
    rw [hport p hp c hmem] at hc
    cases hc
  unfold splitHostPort at h
  split at h
  · split at h
    · cases h
    · rename_i front suffix hsplit
      obtain ⟨hwhole, hfront⟩ := Text.splitOnce_eq_some hsplit
      have hclose : ']' ∉ portText port := by
        cases port with
        | none => exact List.not_mem_nil
        | some p =>
          intro hmem
          rcases List.mem_cons.mp hmem with heq | hmem
          · exact absurd heq (by decide)
          · exact hdigits (by decide) p rfl hmem
      have hin : ']' ∈ host := by
        have hmem : ']' ∈ host ++ portText port := by
          rw [hwhole]
          exact List.mem_append_right _ List.mem_cons_self
        exact (List.mem_append.mp hmem).resolve_right hclose
      obtain ⟨front', back, rfl, hfront'⟩ := List.eq_append_cons_of_mem hin
      have hsame := Text.splitOnce_append hfront' (back ++ portText port)
      rw [← List.cons_append, ← List.append_assoc, hsplit] at hsame
      obtain ⟨rfl, rfl⟩ := Prod.mk.inj (Option.some.inj hsame)
      have hback : ':' ∉ back := fun hmem =>
        hhost (List.mem_append_right _ (List.mem_cons_of_mem _ hmem))
      split at h
      · rename_i hempty
        obtain ⟨hbackNil, hportNil⟩ := List.append_eq_nil_iff.mp hempty
        obtain ⟨rfl, rfl⟩ := Prod.mk.inj (Option.some.inj h)
        cases port with
        | some p => cases hportNil
        | none =>
          rw [hbackNil]
          exact ⟨rfl, rfl, fun hbad => by cases hbad⟩
      · split at h
        · cases h
        · rename_i found' hstrip
          have hcolon := Text.stripPrefix_eq_some hstrip
          have hbackNil : back = [] := by
            cases back with
            | nil => rfl
            | cons c back =>
              exact absurd (List.mem_cons.mpr (.inl (List.cons.inj hcolon).1.symm)) hback
          rw [hbackNil] at hcolon ⊢
          cases port with
          | none => cases hcolon
          | some p =>
            obtain rfl : p = found' := (List.cons.inj hcolon).2
            rw [Option.map_eq_some_iff] at h
            obtain ⟨valid, hvalid, heq⟩ := h
            obtain ⟨rfl, rfl⟩ := Prod.mk.inj heq
            exact ⟨rfl, hvalid.symm, fun _ => rfl⟩
  · cases port with
    | none =>
      have hnone : rsplitOnce ':' (host ++ portText none) = none :=
        Text.rsplitOnce_eq_none.mpr (by rw [portText, List.append_nil]; exact hhost)
      rw [hnone] at h
      obtain ⟨rfl, rfl⟩ := Prod.mk.inj (Option.some.inj h)
      exact ⟨List.append_nil host, rfl, fun hbad => by cases hbad⟩
    | some p =>
      have hsplit : rsplitOnce ':' (host ++ portText (some p)) = some (host, p) :=
        Text.rsplitOnce_append host (hdigits (by decide) p rfl)
      rw [hsplit] at h
      dsimp only at h
      rw [Option.map_eq_some_iff] at h
      obtain ⟨valid, hvalid, heq⟩ := h
      obtain ⟨rfl, rfl⟩ := Prod.mk.inj heq
      exact ⟨rfl, hvalid.symm, fun _ => rfl⟩

theorem defaultPort_eq (scheme : Text) :
    defaultPort scheme = (Remote.knownPort scheme).map (Nat.toDigits 10) := by
  unfold defaultPort Remote.knownPort
  split
  · rfl
  · split
    · rfl
    · split
      · rfl
      · split
        · rfl
        · rfl

theorem toLower_of_not_upper {c : Char} (h : c.isUpper = false) : c.toLower = c := by
  unfold Char.toLower
  rw [dif_neg]
  intro hupper
  unfold Char.isUpper at h
  exact of_decide_eq_false h hupper

theorem isUpper_toLower (c : Char) : c.toLower.isUpper = false := by
  unfold Char.toLower
  split
  · rename_i hupper
    have hlow : 65 ≤ c.toNat := UInt32.le_iff_toNat_le.mp hupper.1
    have hhigh : c.toNat ≤ 90 := UInt32.le_iff_toNat_le.mp hupper.2
    unfold Char.isUpper
    simp [UInt32.le_iff_toNat_le]
    omega
  · rename_i hupper
    exact decide_eq_false hupper

theorem asciiLower_asciiLower (t : Text) : asciiLower (asciiLower t) = asciiLower t := by
  unfold asciiLower
  rw [List.map_map]
  apply List.map_congr_left
  intro c _
  exact toLower_of_not_upper (isUpper_toLower c)

/-! ## Reading -/

theorem remoteParts_url {scheme host path : Text} {user port : Option Text}
    (hstated : (Remote.url scheme user host port path).Stated)
    (hclear : (Remote.url scheme user host port path).Clear) {parts : RemoteParts} {isUrl : Bool}
    (h : remoteParts (Remote.url scheme user host port path).text = some (parts, isUrl)) :
    isUrl = true ∧ parts.scheme = asciiLower scheme ∧ parts.host = host ∧ parts.path = path ∧
      parts.port = (Remote.url scheme user host port path).port.map (Nat.toDigits 10) := by
  obtain ⟨hscheme, huser, hhost, hport, -⟩ := hstated
  have hsplit : splitOnceText "://".toList (Remote.url scheme user host port path).text =
      some (scheme, userText user ++ (host ++ portText port ++ '/' :: path)) := by
    exact Text.splitOnceText_append hscheme _
  have hauthority : ∀ {c : Char}, c ∉ host → c ≠ ':' → c.isDigit = false →
      c ∉ host ++ portText port := by
    intro c hc hcolon hdigit hmem
    rcases List.mem_append.mp hmem with hmem | hmem
    · exact hc hmem
    · cases hcase : port with
      | none =>
        rw [hcase] at hmem
        cases hmem
      | some p =>
        rw [hcase] at hmem
        rcases List.mem_cons.mp hmem with heq | hmem
        · exact hcolon heq
        · rw [hport p (by rw [hcase]; rfl) c hmem] at hdigit
          cases hdigit
  have hrest : user = none → '@' ∉ host ++ portText port ++ '/' :: path := by
    intro hnone hmem
    rcases List.mem_append.mp hmem with hmem | hmem
    · exact hauthority hhost.2.2 (by decide) (by decide) hmem
    · rcases List.mem_cons.mp hmem with heq | hmem
      · exact absurd heq (by decide)
      · exact hclear hnone hmem
  unfold remoteParts at h
  rw [hsplit] at h
  dsimp only at h
  rw [Option.map_eq_some_iff] at h
  obtain ⟨parts', hparts, heq⟩ := h
  obtain ⟨rfl, rfl⟩ := Prod.mk.inj heq
  refine ⟨rfl, ?_⟩
  unfold normalizeUrlRepositoryIdentity at hparts
  dsimp only at hparts
  split at hparts
  · cases hparts
  · rw [stripUserinfo_userText (fun u hu => (huser u hu).2.2) hrest,
      Text.splitOnce_append (hauthority hhost.1 (by decide) (by decide))] at hparts
    dsimp only at hparts
    cases hfound : splitHostPort (host ++ portText port) with
    | none =>
      rw [hfound] at hparts
      cases hparts
    | some found =>
      obtain ⟨found, foundPort⟩ := found
      rw [hfound] at hparts
      obtain ⟨rfl, hvalid, hsome⟩ := splitHostPort_eq_some hhost.2.1 hport hfound
      rw [← Option.some.inj hparts]
      refine ⟨rfl, rfl, rfl, ?_⟩
      dsimp only
      cases hcase : port with
      | none =>
        rw [hcase] at hvalid
        rw [hvalid]
        exact defaultPort_eq _
      | some p =>
        rw [hcase] at hvalid hsome
        obtain ⟨digits, hdigits⟩ := Option.isSome_iff_exists.mp (hsome rfl)
        rw [hdigits] at hvalid ⊢
        exact (validPort_eq_some hvalid.symm).symm

theorem remoteParts_scp {host path : Text} {user : Option Text}
    (hstated : (Remote.scp user host path).Stated) (hclear : (Remote.scp user host path).Clear)
    {parts : RemoteParts} {isUrl : Bool}
    (h : remoteParts (Remote.scp user host path).text = some (parts, isUrl)) :
    isUrl = false ∧ parts.scheme = "ssh".toList ∧ parts.host = host ∧
      parts.port = some "22".toList ∧
      (stripPrefix ['/'] parts.path).getD parts.path = (Remote.scp user host path).path := by
  obtain ⟨huser, hhost, hpath⟩ := hstated
  obtain ⟨hnoUser, hnoUrl, hbracket⟩ := hclear
  have hrest : user = none → '@' ∉ host ++ ':' :: path := by
    intro hnone hmem
    rcases List.mem_append.mp hmem with hmem | hmem
    · exact hhost.2.2 hmem
    · rcases List.mem_cons.mp hmem with heq | hmem
      · exact absurd heq (by decide)
      · exact hnoUser hnone hmem
  have hsplit : ∀ found, splitScpHostPath (host ++ ':' :: path) = some found →
      found = (host, path) := by
    intro found hfound
    unfold splitScpHostPath at hfound
    split at hfound
    · rename_i hopen
      have hhead : host.head? = some '[' := by
        cases host with
        | nil => cases hopen
        | cons c host => exact hopen
      obtain ⟨front, back, rfl, hfront⟩ := List.eq_append_cons_of_mem (hbracket hhead)
      have hback : ':' ∉ back := fun hmem =>
        hhost.2.1 (List.mem_append_right _ (List.mem_cons_of_mem _ hmem))
      rw [List.append_assoc, List.cons_append, Text.splitOnce_append hfront] at hfound
      dsimp only at hfound
      cases back with
      | nil =>
        have hstrip : stripPrefix [':'] (':' :: path) = some path :=
          Text.stripPrefix_append [':'] path
        rw [List.nil_append, hstrip] at hfound
        dsimp only at hfound
        rw [if_pos hpath] at hfound
        exact (Option.some.inj hfound).symm
      | cons c back =>
        split at hfound
        · cases hfound
        · rename_i rest hstrip
          have hcolon := (List.cons.inj (Text.stripPrefix_eq_some hstrip)).1
          exact absurd (List.mem_cons.mpr (.inl hcolon.symm)) hback
    · rw [Text.splitOnce_append hhost.2.1] at hfound
      dsimp only at hfound
      rw [if_pos ⟨hhost.1, hpath⟩] at hfound
      exact (Option.some.inj hfound).symm
  unfold remoteParts at h
  rw [hnoUrl] at h
  dsimp only at h
  rw [Option.map_eq_some_iff] at h
  obtain ⟨parts', hparts, heq⟩ := h
  obtain ⟨rfl, rfl⟩ := Prod.mk.inj heq
  refine ⟨rfl, ?_⟩
  unfold normalizeScpRepositoryIdentity Remote.text at hparts
  dsimp only at hparts
  rw [stripUserinfo_userText (fun u hu => (huser u hu).2.2) hrest] at hparts
  cases hfound : splitScpHostPath (host ++ ':' :: path) with
  | none =>
    rw [hfound] at hparts
    cases hparts
  | some found =>
  obtain rfl := hsplit found hfound
  rw [hfound] at hparts
  rw [← Option.some.inj hparts]
  refine ⟨rfl, rfl, rfl, ?_⟩
  dsimp only
  cases path with
  | nil => exact absurd rfl hpath
  | cons c path =>
    by_cases hslash : c = '/'
    · rw [hslash]
      rfl
    · by_cases hhome : c = '~'
      · rw [hhome]
        rfl
      · have hrelative : ¬ ((c :: path).head? = some '/' ∨ (c :: path).head? = some '~') := by
          rintro (h | h)
          · exact hslash (Option.some.inj h)
          · exact hhome (Option.some.inj h)
        rw [if_neg hrelative]
        unfold Remote.path
        split
        · rename_i heq
          cases heq
        · rename_i heq
          cases heq
          exact absurd rfl hslash
        · rename_i heq
          cases heq
          exact absurd rfl hhome
        · rename_i heq
          cases heq
          rfl

/-- The canonical text of a remote that is read as it is written. -/
theorem canonical_of_parse {remote : Text} {r : Remote} (hreads : Reads remote r)
    {identity : NormalizedRepositoryIdentity}
    (h : parseRepositoryIdentityV2 remote = some identity) :
    ∃ core, Spells core r.path ∧ identity.canonical =
      canonicalOf ⟨r.scheme, asciiLower r.host, r.port.map (Nat.toDigits 10), []⟩ core := by
  obtain ⟨htext, hstated, hclear⟩ := hreads
  unfold parseRepositoryIdentityV2 at h
  dsimp only at h
  rw [htext] at h
  split at h
  · cases h
  · cases hparts : remoteParts r.text with
    | none =>
      rw [hparts] at h
      cases h
    | some found =>
      obtain ⟨parts, isUrl⟩ := found
      rw [hparts] at h
      dsimp only at h
      split at h
      · cases h
      · split at h
        · cases h
        · rename_i core hcore
          rw [← Option.some.inj h]
          have hspells := spells_of_normalize hcore
          cases r with
          | url scheme user host port path =>
            obtain ⟨rfl, hscheme, hhost, hpath, hport⟩ := remoteParts_url hstated hclear hparts
            rw [if_pos rfl, hpath] at hspells
            refine ⟨core, hspells, ?_⟩
            unfold canonicalOf
            dsimp only
            rw [hport, hscheme, hhost, asciiLower_asciiLower]
            rfl
          | scp user host path =>
            obtain ⟨rfl, hscheme, hhost, hport, hpath⟩ := remoteParts_scp hstated hclear hparts
            rw [if_neg Bool.false_ne_true, hpath] at hspells
            refine ⟨core, hspells, ?_⟩
            unfold canonicalOf
            dsimp only
            rw [hport, hscheme, hhost]
            rfl

/-! ## What the canonical text determines -/

theorem canonicalOf_eq (parts : RemoteParts) (path : Text) :
    canonicalOf parts path =
      parts.scheme ++
        ':' :: '/' :: '/' :: ((parts.host ++ portText parts.port) ++ '/' :: path) := by
  unfold canonicalOf
  cases hport : parts.port with
  | none => simp [portText]
  | some port => simp [portText]

theorem canonicalOf_inj {parts parts' : RemoteParts} {path path' : Text}
    (hscheme : ':' ∉ parts.scheme) (hscheme' : ':' ∉ parts'.scheme)
    (hhost : '/' ∉ parts.host ∧ ':' ∉ parts.host) (hhost' : '/' ∉ parts'.host ∧ ':' ∉ parts'.host)
    (hport : ∀ p ∈ parts.port, '/' ∉ p) (hport' : ∀ p ∈ parts'.port, '/' ∉ p)
    (h : canonicalOf parts path = canonicalOf parts' path') :
    parts.scheme = parts'.scheme ∧ parts.host = parts'.host ∧ parts.port = parts'.port ∧
      path = path' := by
  have hauthority : ∀ {q : RemoteParts}, '/' ∉ q.host → (∀ p ∈ q.port, '/' ∉ p) →
      '/' ∉ q.host ++ portText q.port := by
    intro q hq hqport hmem
    rcases List.mem_append.mp hmem with hmem | hmem
    · exact hq hmem
    · cases hcase : q.port with
      | none =>
        rw [hcase] at hmem
        cases hmem
      | some p =>
        rw [hcase] at hmem
        rcases List.mem_cons.mp hmem with heq | hmem
        · exact absurd heq (by decide)
        · exact hqport p hcase hmem
  rw [canonicalOf_eq, canonicalOf_eq] at h
  have hfirst := Text.splitOnce_append hscheme
    ('/' :: '/' :: ((parts.host ++ portText parts.port) ++ '/' :: path))
  rw [h, Text.splitOnce_append hscheme'] at hfirst
  obtain ⟨hschemes, hrest⟩ := Prod.mk.inj (Option.some.inj hfirst)
  have htail := (List.cons.inj (List.cons.inj hrest).2).2
  have hsecond := Text.splitOnce_append (hauthority hhost.1 hport) path
  rw [← htail, Text.splitOnce_append (hauthority hhost'.1 hport')] at hsecond
  obtain ⟨hauthorities, hpaths⟩ := Prod.mk.inj (Option.some.inj hsecond)
  refine ⟨hschemes.symm, ?_⟩
  have hnone : ∀ {q : RemoteParts}, ':' ∉ q.host → q.port = none →
      splitOnce ':' (q.host ++ portText q.port) = none := by
    intro q hq hqport
    rw [hqport, portText, List.append_nil]
    exact Text.splitOnce_eq_none.mpr hq
  have hsome : ∀ {q : RemoteParts} {p : Text}, ':' ∉ q.host → q.port = some p →
      splitOnce ':' (q.host ++ portText q.port) = some (q.host, p) := by
    intro q p hq hqport
    rw [hqport]
    exact Text.splitOnce_append hq p
  cases hp : parts.port with
  | none =>
    cases hp' : parts'.port with
    | none =>
      rw [hp, hp', portText, List.append_nil, List.append_nil] at hauthorities
      exact ⟨hauthorities.symm, rfl, hpaths.symm⟩
    | some p' =>
      have hleft := hnone hhost.2 hp
      rw [← hauthorities, hsome hhost'.2 hp'] at hleft
      cases hleft
  | some p =>
    have hleft := hsome hhost.2 hp
    cases hp' : parts'.port with
    | none =>
      rw [← hauthorities, hnone hhost'.2 hp'] at hleft
      cases hleft
    | some p' =>
      rw [← hauthorities, hsome hhost'.2 hp'] at hleft
      obtain ⟨hhosts, hports⟩ := Prod.mk.inj (Option.some.inj hleft)
      exact ⟨hhosts.symm, congrArg some hports.symm, hpaths.symm⟩

namespace Remote

theorem scheme_no_colon {r : Remote} (h : r.Stated) : ':' ∉ r.scheme := by
  cases r with
  | url scheme user host port path => exact not_mem_asciiLower (by decide) h.1
  | scp user host path =>
    change ':' ∉ "ssh".toList
    decide

theorem host_separated {r : Remote} (h : r.Stated) :
    '/' ∉ asciiLower r.host ∧ ':' ∉ asciiLower r.host := by
  have hhost : Separated r.host := by
    cases r with
    | url scheme user host port path => exact h.2.2.1
    | scp user host path => exact h.2.1
  exact ⟨not_mem_asciiLower (by decide) hhost.1, not_mem_asciiLower (by decide) hhost.2.1⟩

end Remote

theorem port_no_slash (port : Option Nat) : ∀ p ∈ port.map (Nat.toDigits 10), '/' ∉ p := by
  intro p hp hmem
  obtain ⟨n, -, rfl⟩ := Option.map_eq_some_iff.mp hp
  have hdigit : ('/' : Char).isDigit = true :=
    Nat.isDigit_of_mem_toDigits (by decide) (by decide) hmem
  exact absurd hdigit (by decide)

theorem sameRepository_of_canonical {remote remote' : Text} {r r' : Remote}
    (hreads : Reads remote r) (hreads' : Reads remote' r')
    {identity : NormalizedRepositoryIdentity}
    (h : parseRepositoryIdentityV2 remote = some identity)
    (h' : parseRepositoryIdentityV2 remote' = some identity) : SameRepository r r' := by
  obtain ⟨core, hcore, hcanonical⟩ := canonical_of_parse hreads h
  obtain ⟨core', hcore', hcanonical'⟩ := canonical_of_parse hreads' h'
  rw [hcanonical] at hcanonical'
  obtain ⟨hscheme, hhost, hport, rfl⟩ := canonicalOf_inj
    (Remote.scheme_no_colon hreads.stated) (Remote.scheme_no_colon hreads'.stated)
    (Remote.host_separated hreads.stated) (Remote.host_separated hreads'.stated)
    (port_no_slash r.port) (port_no_slash r'.port) hcanonical'
  refine ⟨hscheme, hhost, ?_, core, hcore, hcore'⟩
  exact Option.map_injective (fun _ _ => Encoding.toDigits_inj) hport

/-- The hash does not collide on the bytes of these canonical texts. -/
def CollisionFree (identity identity' : Text) : Prop :=
  Fnv.mixBytes Fnv.offsetBasis (repositoryIdBytes repositoryIdentityV2SchemaVersion identity) =
      Fnv.mixBytes Fnv.offsetBasis (repositoryIdBytes repositoryIdentityV2SchemaVersion identity') →
    repositoryIdBytes repositoryIdentityV2SchemaVersion identity =
      repositoryIdBytes repositoryIdentityV2SchemaVersion identity'

theorem canonical_of_repositoryId {identity identity' : Text}
    (hfree : CollisionFree identity identity')
    (h : canonicalRepositoryIdV2 identity = canonicalRepositoryIdV2 identity') :
    identity = identity' := by
  have hhash := Fnv.hex16_inj (List.append_cancel_left h)
  exact Utf8Text.encode_inj (List.append_cancel_left (hfree hhash))

/-- Remotes with one canonical text, or with one id that is no collision, name one repository. -/
theorem repository_identity_is_lossless {remote remote' : Text} {r r' : Remote}
    (hreads : Reads remote r) (hreads' : Reads remote' r') :
    (∀ identity, parseRepositoryIdentityV2 remote = some identity →
      parseRepositoryIdentityV2 remote' = some identity → SameRepository r r') ∧
    ∀ identity identity', parseRepositoryIdentityV2 remote = some identity →
      parseRepositoryIdentityV2 remote' = some identity' →
      CollisionFree identity.canonical identity'.canonical →
      canonicalRepositoryId remote = canonicalRepositoryId remote' → SameRepository r r' := by
  refine ⟨fun identity h h' => sameRepository_of_canonical hreads hreads' h h', ?_⟩
  intro identity identity' h h' hfree hid
  unfold canonicalRepositoryId at hid
  rw [h, h'] at hid
  have hsame : identity.canonical = identity'.canonical :=
    canonical_of_repositoryId hfree (Option.some.inj hid)
  obtain ⟨canonical⟩ := identity
  obtain ⟨canonical'⟩ := identity'
  obtain rfl : canonical = canonical' := hsame
  exact sameRepository_of_canonical hreads hreads' h h'

attribute [local instance] Text.decidableAllChars

theorem scp_and_url_agree : SameRepository
    (.scp (some "git".toList) "Example.com".toList "team/repo.git".toList)
    (.url "SSH".toList none "example.com".toList (some "022".toList) "~/team/repo/".toList) := by
  have hscp : Reads " git@Example.com:team/repo.git\n".toList
      (.scp (some "git".toList) "Example.com".toList "team/repo.git".toList) := by
    refine ⟨by decide, ⟨?_, ?_, by decide⟩, ?_, by decide +kernel, ?_⟩
    · intro u hu
      obtain rfl := Option.some.inj hu
      exact ⟨by decide, by decide, by decide⟩
    · exact ⟨by decide, by decide, by decide⟩
    · intro hnone
      cases hnone
    · intro hopen
      cases hopen
  have hurl : Reads "SSH://example.com:022/~/team/repo/".toList
      (.url "SSH".toList none "example.com".toList (some "022".toList) "~/team/repo/".toList) := by
    refine ⟨by decide +kernel, ⟨by decide, ?_, ?_, ?_, by decide⟩, ?_⟩
    · intro u hu
      cases hu
    · exact ⟨by decide, by decide, by decide⟩
    · intro p hp
      obtain rfl := Option.some.inj hp
      decide
    · intro _
      decide
  exact (repository_identity_is_lossless hscp hurl).1
    ⟨"ssh://example.com:22/~/team/repo".toList⟩ (by decide +kernel) (by decide +kernel)

theorem core_eq_of_spells {core path : Text} (h : Spells core path)
    (hslash : path.getLast? ≠ some '/') (hgit : path.getLast? ≠ some 't') : core = path := by
  have hend : ∀ (front : Text) (n : Nat), path = front ++ List.replicate n '/' → path = front := by
    intro front n hpath
    cases n with
    | zero => rw [hpath, List.replicate_zero, List.append_nil]
    | succ n =>
      rw [hpath, List.replicate_succ', ← List.append_assoc, List.getLast?_concat] at hslash
      exact absurd rfl hslash
  obtain ⟨i, j, hpath | hpath⟩ := h
  · exact (hend core i hpath).symm
  · have hfront : path = core ++ (List.replicate i '/' ++ ".git".toList) := by
      apply hend _ j
      rw [hpath, List.append_assoc, List.append_assoc]
    rw [hfront, List.getLast?_append, List.getLast?_append] at hgit
    exact absurd rfl hgit

/-- Backslashes are read as slashes, and without a user a `@` in the path ends the host. -/
theorem remotes_collide :
    (¬ ∀ (r r' : Remote) identity, r.Stated → r'.Stated →
      parseRepositoryIdentityV2 r.text = some identity →
      parseRepositoryIdentityV2 r'.text = some identity → SameRepository r r') ∧
    parseRepositoryIdentityV2 "https://github.com/a@evil.com/repo".toList =
      parseRepositoryIdentityV2 "https://evil.com/repo".toList := by
  refine ⟨fun h => ?_, by decide +kernel⟩
  have hstated : ∀ path : Text, path ≠ [] →
      (Remote.url "https".toList none "h".toList none path).Stated := by
    intro path hpath
    refine ⟨by decide, ?_, ⟨by decide, by decide, by decide⟩, ?_, hpath⟩
    · intro u hu
      cases hu
    · intro p hp
      cases hp
  have hsame := h (.url "https".toList none "h".toList none "a\\b".toList)
    (.url "https".toList none "h".toList none "a/b".toList) ⟨"https://h:443/a/b".toList⟩
    (hstated _ (by decide)) (hstated _ (by decide)) (by decide) (by decide)
  obtain ⟨core, hleft, hright⟩ := hsame.path
  have hcore := core_eq_of_spells hleft (by decide) (by decide)
  rw [core_eq_of_spells hright (by decide) (by decide)] at hcore
  exact absurd hcore (by decide)

end CodeStory.Workspace
