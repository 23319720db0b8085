import CodeStory.Search.Generations

/-!
# What pruning keeps

A pass walks over the generations and keeps the active one, every generation that somebody
else holds, and one rollback. The rollback is the generation of the live publication when the
read of the live database returns that publication. When the read returns nothing or fails, the
rollback is the most recently modified completed generation, whichever it is.
-/

set_option autoImplicit false

namespace CodeStory.Search

open Store

section Pass
variable {root : CatalogRoot} {world : CatalogWorld} {isUuid : String → Bool}
  {active : String} {pinned : Option String}

/-- Another handle holds the lock of the generation when its removal is tried. -/
def CatalogWorld.HoldsAtRemoval (world : CatalogWorld) (name : String) : Prop :=
  ∃ lock, world.removalLock name = .held lock ∧ lock ≠ .free

theorem tryRemove_of_held {name : String} {content : Option SearchGeneration}
    (h : world.HoldsAtRemoval name) :
    (tryRemoveSearchGeneration root world name content).2 = content := by
  obtain ⟨lock, hlock, hne⟩ := h
  cases lock with
  | free => exact absurd rfl hne
  | shared => simp [tryRemoveSearchGeneration, hlock]
  | exclusive => simp [tryRemoveSearchGeneration, hlock]

/-- What one entry does to the pass: it ends it, is passed over, is retained, or its removal
is tried. -/
inductive Visit where
  | ended
  | skipped
  | retained
  | tried
  deriving DecidableEq

section Visit
variable (root world isUuid active pinned)

def inspection (name : String) (content : Option SearchGeneration) :
    Except ApiError (Option Bool) :=
  if isUuid name then inspectSearchGeneration root world name content else .ok (some false)

def visit (name : String) (rollbackRetained : Bool) (content : Option SearchGeneration) : Visit :=
  if name = active then .skipped
  else
    match inspection root world isUuid name content with
    | .error _ => .ended
    | .ok none => .skipped
    | .ok (some valid) =>
      if valid && !rollbackRetained && pinned.all (· = name) then .retained else .tried

/-- The catalog at the end of the pass. -/
def retainedCatalog (names : List String) (retained : Bool) (catalog : Catalog) : Catalog :=
  (retainGenerations root world isUuid active pinned names retained catalog).2

/-- The catalog after one entry and the rest of the pass. -/
def afterVisit (name : String) (rest : List String) (retained : Bool) (catalog : Catalog) :
    Visit → Catalog
  | .ended => catalog
  | .skipped => retainedCatalog root world isUuid active pinned rest retained catalog
  | .retained => retainedCatalog root world isUuid active pinned rest true catalog
  | .tried =>
    let removal := tryRemoveSearchGeneration root world name (catalog name)
    match removal.1 with
    | .error _ => catalog.set name removal.2
    | .ok _ =>
      retainedCatalog root world isUuid active pinned rest retained (catalog.set name removal.2)

end Visit

theorem retainedCatalog_cons (name : String) (rest : List String) (retained : Bool)
    (catalog : Catalog) :
    retainedCatalog root world isUuid active pinned (name :: rest) retained catalog =
      afterVisit root world isUuid active pinned name rest retained catalog
        (visit root world isUuid active pinned name retained (catalog name)) := by
  unfold retainedCatalog retainGenerations visit inspection
  by_cases hactive : name = active
  · rw [if_pos hactive, if_pos hactive]
    rfl
  rw [if_neg hactive, if_neg hactive]
  cases (if isUuid name then inspectSearchGeneration root world name (catalog name)
    else Except.ok (some false)) with
  | error error => rfl
  | ok answer =>
    cases answer with
    | none => rfl
    | some valid =>
      dsimp only
      split
      · rfl
      · cases h : tryRemoveSearchGeneration root world name (catalog name) with
        | mk result left =>
          cases result with
          | error error => simp [afterVisit, h]
          | ok removed => simp [afterVisit, h, retainedCatalog]

/-- A removal that is tried either ends the pass or lets it go on. -/
theorem afterVisit_tried (name : String) (rest : List String) (retained : Bool)
    (catalog : Catalog) {removal : Except ApiError Bool × Option SearchGeneration}
    (hremoval : tryRemoveSearchGeneration root world name (catalog name) = removal) :
    (∃ error, removal.1 = .error error ∧
      afterVisit root world isUuid active pinned name rest retained catalog .tried =
        catalog.set name removal.2) ∨
    (∃ removed, removal.1 = .ok removed ∧
      afterVisit root world isUuid active pinned name rest retained catalog .tried =
        retainedCatalog root world isUuid active pinned rest retained
          (catalog.set name removal.2)) := by
  unfold afterVisit
  dsimp only
  rw [hremoval]
  cases removal.1 with
  | error error => exact Or.inl ⟨error, rfl, rfl⟩
  | ok removed => exact Or.inr ⟨removed, rfl, rfl⟩

/-- An entry whose removal cannot change it keeps its content. -/
theorem retainedCatalog_keeps {kept : String} {names : List String} {retained : Bool}
    {catalog : Catalog}
    (h : kept ∈ names → ∀ retained content,
      visit root world isUuid active pinned kept retained content = .tried →
        (tryRemoveSearchGeneration root world kept content).2 = content) :
    retainedCatalog root world isUuid active pinned names retained catalog kept =
      catalog kept := by
  induction names generalizing retained catalog with
  | nil => rfl
  | cons name rest ih =>
    have hrest := fun retained catalog =>
      @ih retained catalog fun hmem => h (List.mem_cons_of_mem name hmem)
    rw [retainedCatalog_cons]
    cases hvisit : visit root world isUuid active pinned name retained (catalog name) with
    | ended => rfl
    | skipped => exact hrest retained catalog
    | retained => exact hrest true catalog
    | tried =>
      have hset : catalog.set name
          (tryRemoveSearchGeneration root world name (catalog name)).2 kept = catalog kept := by
        by_cases hname : kept = name
        · subst hname
          rw [Catalog.set_self]
          exact h List.mem_cons_self retained (catalog kept) hvisit
        · exact Catalog.set_of_ne hname
      rcases afterVisit_tried name rest retained catalog rfl with ⟨_, _, h⟩ | ⟨_, _, h⟩
      · rw [h]
        exact hset
      · rw [h, hrest]
        exact hset

theorem retainedCatalog_frame {kept : String} {names : List String} {retained : Bool}
    {catalog : Catalog} (h : kept ∉ names) :
    retainedCatalog root world isUuid active pinned names retained catalog kept = catalog kept :=
  retainedCatalog_keeps fun hmem => absurd hmem h

theorem retainedCatalog_active {names : List String} {retained : Bool} {catalog : Catalog} :
    retainedCatalog root world isUuid active pinned names retained catalog active =
      catalog active := by
  apply retainedCatalog_keeps
  intro _ retained content hvisit
  simp [visit] at hvisit

theorem retainedCatalog_held {name : String} {names : List String} {retained : Bool}
    {catalog : Catalog} (h : world.HoldsAtRemoval name) :
    retainedCatalog root world isUuid active pinned names retained catalog name =
      catalog name :=
  retainedCatalog_keeps fun _ _ _ _ => tryRemove_of_held h

/-- A valid generation is not tried while nothing else is pinned or retained. -/
theorem visit_of_valid {name : String} {content : Option SearchGeneration}
    (huuid : isUuid name = true) (hvalid : isValid name content = true)
    (hpinned : pinned.all (· = name) = true) :
    visit root world isUuid active pinned name false content ≠ .tried := by
  unfold visit inspection inspectSearchGeneration
  rw [if_pos huuid]
  split
  · simp
  · cases world.inspection name with
    | unopened error => simp
    | failed error => simp
    | held lock => cases lock <;> simp [hvalid, hpinned]

/-- The generation that a read of the live database pins survives the pass. -/
theorem retainedCatalog_pinned {live : String} {names : List String} {catalog : Catalog}
    (hnames : names.Nodup) (huuid : isUuid live = true)
    (hvalid : isValid live (catalog live) = true) :
    retainedCatalog root world isUuid active (some live) names false catalog live =
      catalog live := by
  induction names generalizing catalog with
  | nil => rfl
  | cons name rest ih =>
    obtain ⟨hname, hrest⟩ := List.nodup_cons.mp hnames
    rw [retainedCatalog_cons]
    by_cases hlive : name = live
    · subst hlive
      have htried := @visit_of_valid root world isUuid active (some name) name _ huuid hvalid
        (by simp)
      cases hvisit : visit root world isUuid active (some name) name false (catalog name) with
      | ended => rfl
      | skipped => exact retainedCatalog_frame hname
      | retained => exact retainedCatalog_frame hname
      | tried => exact absurd hvisit htried
    · -- no other generation takes the slot, so the flag stays down
      cases hvisit : visit root world isUuid active (some live) name false (catalog name) with
      | ended => rfl
      | skipped => exact ih hrest hvalid
      | retained =>
        unfold visit at hvisit
        split at hvisit
        · cases hvisit
        · split at hvisit <;> simp [Ne.symm hlive] at hvisit
      | tried =>
        have hset : ∀ left, catalog.set name left live = catalog live :=
          fun left => Catalog.set_of_ne (Ne.symm hlive)
        rcases afterVisit_tried name rest false catalog rfl with ⟨_, _, h⟩ | ⟨_, _, h⟩
        · rw [h]
          exact hset _
        · rw [h, ih hrest (by rw [hset]; exact hvalid), hset]

section Exposure
variable (world isUuid active)

/-- The lock of the generation can be shared, so its marker and its index are read. -/
def CatalogWorld.Inspects (name : String) : Prop :=
  world.inspection name = .held .free ∨ world.inspection name = .held .shared

/-- A completed generation that may take the rollback slot. -/
def Completed (name : String) (content : Option SearchGeneration) : Prop :=
  name ≠ active ∧ isUuid name = true ∧ world.Inspects name ∧ isValid name content = true

/-- No failed removal of this entry ends the pass. -/
def RemovalReturns (name : String) (content : Option SearchGeneration) : Prop :=
  (world.removalLock name = .held .free ∧ (content = none ∨ world.removal name = .done)) ∨
    world.HoldsAtRemoval name

/-- No failed call at this entry ends a pass that does not retain it. -/
def GoesOn (name : String) (content : Option SearchGeneration) : Prop :=
  name = active ∨ (isUuid name = true ∧ world.inspection name = .held .exclusive) ∨
    ((isUuid name = true → world.Inspects name) ∧ RemovalReturns world name content)

/-- A removal of the generation would be tried, would find its lock free, and would not leave
it as it is. -/
def Exposed (name : String) (content : Option SearchGeneration) : Prop :=
  name ≠ active ∧ world.Inspects name ∧ world.removalLock name = .held .free ∧
    ∀ error, world.removal name ≠ .failed error content

/-- The pass comes to the generation with the rollback slot taken and tries to remove it. -/
def Doomed (catalog : Catalog) (live : String) (names : List String) : Prop :=
  ∃ before after, names = before ++ live :: after ∧
    (∀ name ∈ before, GoesOn world isUuid active name (catalog name)) ∧
    Exposed world active live (catalog live)

/-- A completed generation takes the rollback slot before the pass comes to `live`. -/
def Overtaken (catalog : Catalog) (live : String) (names : List String) : Prop :=
  ∃ before rollback after, names = before ++ rollback :: after ∧
    (∀ name ∈ before, GoesOn world isUuid active name (catalog name) ∧
      ¬ Completed world isUuid active name (catalog name)) ∧
    Completed world isUuid active rollback (catalog rollback) ∧
    Doomed world isUuid active catalog live after

end Exposure

theorem inspection_of_inspects {name : String} {content : Option SearchGeneration}
    (huuid : isUuid name = true) (h : world.Inspects name) :
    inspection root world isUuid name content = .ok (some (isValid name content)) := by
  unfold inspection inspectSearchGeneration
  rcases h with h | h <;> simp [huuid, h]

theorem inspection_of_not_inspects {name : String} {content : Option SearchGeneration}
    (huuid : isUuid name = true) (h : ¬ world.Inspects name) :
    (world.inspection name = .held .exclusive ∧
      inspection root world isUuid name content = .ok none) ∨
    (world.inspection name ≠ .held .exclusive ∧
      ∃ error, inspection root world isUuid name content = .error error) := by
  unfold inspection inspectSearchGeneration
  cases hinspection : world.inspection name with
  | unopened error => simp [huuid]
  | failed error => simp [huuid]
  | held lock =>
    cases lock with
    | free => exact absurd (Or.inl hinspection) h
    | shared => exact absurd (Or.inr hinspection) h
    | exclusive => simp [huuid]

theorem visit_retained_iff {name : String} {content : Option SearchGeneration} :
    visit root world isUuid active none name false content = .retained ↔
      Completed world isUuid active name content := by
  unfold visit Completed
  by_cases hactive : name = active
  · simp [hactive]
  rw [if_neg hactive]
  cases huuid : isUuid name with
  | false => simp [inspection, huuid]
  | true =>
    by_cases h : world.Inspects name
    · rw [inspection_of_inspects huuid h]
      cases hvalid : isValid name content <;> simp [hactive, h]
    · rcases @inspection_of_not_inspects root world isUuid name content huuid h with
        ⟨_, h'⟩ | ⟨_, error, h'⟩ <;> simp [h', h]

theorem visit_not_retained {name : String} {content : Option SearchGeneration} :
    visit root world isUuid active none name true content ≠ .retained := by
  unfold visit
  split
  · simp
  · split <;> simp

/-- A removal that is tried returns exactly when its lock is held or the removal is done. -/
theorem tryRemove_returns_iff {name : String} {content : Option SearchGeneration} :
    (∃ removed, (tryRemoveSearchGeneration root world name content).1 = .ok removed) ↔
      RemovalReturns world name content := by
  unfold tryRemoveSearchGeneration RemovalReturns CatalogWorld.HoldsAtRemoval removeOwned
  cases hlock : world.removalLock name with
  | unopened error => simp
  | failed error => simp
  | held lock =>
    cases lock with
    | shared => simp
    | exclusive => simp
    | free =>
      cases content with
      | none => simp
      | some generation => cases hremoval : world.removal name <;> simp

theorem tryRemove_changes_iff {name : String} {content : Option SearchGeneration}
    (hcontent : content ≠ none) :
    (tryRemoveSearchGeneration root world name content).2 ≠ content ↔
      world.removalLock name = .held .free ∧
        ∀ error, world.removal name ≠ .failed error content := by
  obtain ⟨generation, rfl⟩ := Option.ne_none_iff_exists'.mp hcontent
  unfold tryRemoveSearchGeneration removeOwned
  cases hlock : world.removalLock name with
  | unopened error => simp
  | failed error => simp
  | held lock =>
    cases lock with
    | shared => simp
    | exclusive => simp
    | free => cases hremoval : world.removal name <;> simp

/-- An entry that is not retained lets the pass go on exactly when no call at it fails. -/
theorem goesOn_iff {name : String} {retained : Bool} {content : Option SearchGeneration}
    (h : visit root world isUuid active none name retained content ≠ .retained) :
    GoesOn world isUuid active name content ↔
      visit root world isUuid active none name retained content = .skipped ∨
      (visit root world isUuid active none name retained content = .tried ∧
        RemovalReturns world name content) := by
  by_cases hactive : name = active
  · simp [GoesOn, visit, hactive]
  cases huuid : isUuid name with
  | false =>
    have htried : visit root world isUuid active none name retained content = .tried := by
      simp [visit, hactive, inspection, huuid]
    simp [GoesOn, hactive, huuid, htried]
  | true =>
    by_cases hinspects : world.Inspects name
    · have htried : visit root world isUuid active none name retained content = .tried := by
        revert h
        unfold visit
        rw [if_neg hactive, inspection_of_inspects huuid hinspects]
        dsimp only
        split
        · intro h
          exact absurd rfl h
        · intro _
          rfl
      have hexclusive : world.inspection name ≠ .held .exclusive := by
        rcases hinspects with h | h <;> simp [h]
      simp [GoesOn, hactive, huuid, htried, hinspects, hexclusive]
    · rcases @inspection_of_not_inspects root world isUuid name content huuid hinspects with
        ⟨hlock, h'⟩ | ⟨hlock, error, h'⟩
      · simp [GoesOn, visit, hactive, huuid, h', hlock]
      · simp [GoesOn, visit, hactive, huuid, h', hlock, hinspects]

section Splitting
variable {catalog other : Catalog} {live name : String} {names rest : List String}

theorem doomed_cons_self :
    Doomed world isUuid active catalog live (live :: rest) ↔
      Exposed world active live (catalog live) := by
  constructor
  · rintro ⟨before, after, hnames, _, hexposed⟩
    exact hexposed
  · intro hexposed
    exact ⟨[], rest, rfl, by simp, hexposed⟩

theorem doomed_cons (hne : name ≠ live) :
    Doomed world isUuid active catalog live (name :: rest) ↔
      GoesOn world isUuid active name (catalog name) ∧
        Doomed world isUuid active catalog live rest := by
  constructor
  · rintro ⟨before, after, hnames, hbefore, hexposed⟩
    rcases List.cons_eq_append_iff.mp hnames with ⟨_, h⟩ | ⟨before, rfl, rfl⟩
    · exact absurd (List.cons.inj h).1.symm hne
    · exact ⟨hbefore name List.mem_cons_self, before, after, rfl,
        fun x hx => hbefore x (List.mem_cons_of_mem name hx), hexposed⟩
  · rintro ⟨hname, before, after, rfl, hbefore, hexposed⟩
    refine ⟨name :: before, after, rfl, ?_, hexposed⟩
    intro x hx
    rcases List.mem_cons.mp hx with rfl | hx
    · exact hname
    · exact hbefore x hx

theorem Doomed.congr (h : ∀ x ∈ names, catalog x = other x)
    (hdoomed : Doomed world isUuid active catalog live names) :
    Doomed world isUuid active other live names := by
  obtain ⟨before, after, rfl, hbefore, hexposed⟩ := hdoomed
  refine ⟨before, after, rfl, ?_, ?_⟩
  · intro x hx
    rw [← h x (List.mem_append_left _ hx)]
    exact hbefore x hx
  · rw [← h live (by simp)]
    exact hexposed

theorem Doomed.mem (h : Doomed world isUuid active catalog live names) : live ∈ names := by
  obtain ⟨before, after, rfl, _⟩ := h
  simp

theorem Overtaken.congr (h : ∀ x ∈ names, catalog x = other x)
    (hovertaken : Overtaken world isUuid active catalog live names) :
    Overtaken world isUuid active other live names := by
  obtain ⟨before, rollback, after, rfl, hbefore, hrollback, hdoomed⟩ := hovertaken
  refine ⟨before, rollback, after, rfl, ?_, ?_, ?_⟩
  · intro x hx
    rw [← h x (List.mem_append_left _ hx)]
    exact hbefore x hx
  · rw [← h rollback (by simp)]
    exact hrollback
  · exact hdoomed.congr fun x hx => h x (by simp [hx])

theorem overtaken_cons_completed
    (hname : Completed world isUuid active name (catalog name)) :
    Overtaken world isUuid active catalog live (name :: rest) ↔
      Doomed world isUuid active catalog live rest := by
  constructor
  · rintro ⟨before, rollback, after, hnames, hbefore, _, hdoomed⟩
    rcases List.cons_eq_append_iff.mp hnames with ⟨rfl, h⟩ | ⟨before, rfl, rfl⟩
    · rw [(List.cons.inj h).2] at hdoomed
      exact hdoomed
    · exact absurd hname (hbefore name List.mem_cons_self).2
  · intro hdoomed
    exact ⟨[], name, rest, rfl, by simp, hname, hdoomed⟩

theorem overtaken_cons (hname : ¬ Completed world isUuid active name (catalog name)) :
    Overtaken world isUuid active catalog live (name :: rest) ↔
      GoesOn world isUuid active name (catalog name) ∧
        Overtaken world isUuid active catalog live rest := by
  constructor
  · rintro ⟨before, rollback, after, hnames, hbefore, hrollback, hdoomed⟩
    rcases List.cons_eq_append_iff.mp hnames with ⟨_, h⟩ | ⟨before, rfl, rfl⟩
    · rw [(List.cons.inj h).1] at hrollback
      exact absurd hrollback hname
    · exact ⟨(hbefore name List.mem_cons_self).1, before, rollback, after, rfl,
        fun x hx => hbefore x (List.mem_cons_of_mem name hx), hrollback, hdoomed⟩
  · rintro ⟨hgoes, before, rollback, after, rfl, hbefore, hrollback, hdoomed⟩
    refine ⟨name :: before, rollback, after, rfl, ?_, hrollback, hdoomed⟩
    intro x hx
    rcases List.mem_cons.mp hx with rfl | hx
    · exact ⟨hgoes, hname⟩
    · exact hbefore x hx

theorem not_overtaken_cons_self (hlive : live ∉ rest) :
    ¬ Overtaken world isUuid active catalog live (live :: rest) := by
  rintro ⟨before, rollback, after, hnames, _, _, hdoomed⟩
  rcases List.cons_eq_append_iff.mp hnames with ⟨_, h⟩ | ⟨before, _, rfl⟩
  · exact hlive ((List.cons.inj h).2 ▸ hdoomed.mem)
  · exact hlive (by simp [hdoomed.mem])

end Splitting

/-- Every entry but `live` that is not retained either ends the pass or leaves the rest of the
pass to decide about `live`. -/
theorem changes_cons_iff {live name : String} {rest : List String} {retained : Bool}
    {catalog : Catalog} (hne : name ≠ live)
    (hvisit : visit root world isUuid active none name retained (catalog name) ≠ .retained) :
    ∃ catalog', (∀ x, x ≠ name → catalog' x = catalog x) ∧
      (retainedCatalog root world isUuid active none (name :: rest) retained catalog live ≠
          catalog live ↔
        GoesOn world isUuid active name (catalog name) ∧
          retainedCatalog root world isUuid active none rest retained catalog' live ≠
            catalog' live) := by
  rw [goesOn_iff hvisit, retainedCatalog_cons]
  cases h : visit root world isUuid active none name retained (catalog name) with
  | ended => exact ⟨catalog, fun _ _ => rfl, by simp [afterVisit]⟩
  | skipped => exact ⟨catalog, fun _ _ => rfl, by simp [afterVisit]⟩
  | retained => exact absurd h hvisit
  | tried =>
    have hset : ∀ left, catalog.set name left live = catalog live :=
      fun left => Catalog.set_of_ne hne.symm
    refine ⟨catalog.set name (tryRemoveSearchGeneration root world name (catalog name)).2,
      fun x hx => Catalog.set_of_ne hx, ?_⟩
    rw [← @tryRemove_returns_iff root]
    rcases afterVisit_tried name rest retained catalog rfl with
      ⟨error, hresult, hafter⟩ | ⟨removed, hresult, hafter⟩
    · rw [hafter, hresult, hset]
      simp
    · rw [hafter, hresult, hset]
      simp

/-- With the rollback slot taken, `live` is lost exactly when the pass comes to it. -/
theorem lost_iff_doomed {live : String} {names : List String} {catalog : Catalog}
    (hnames : names.Nodup) (huuid : isUuid live = true) (hlive : catalog live ≠ none) :
    retainedCatalog root world isUuid active none names true catalog live ≠ catalog live ↔
      Doomed world isUuid active catalog live names := by
  induction names generalizing catalog with
  | nil =>
    constructor
    · intro h
      exact absurd rfl h
    · intro h
      exact absurd h.mem List.not_mem_nil
  | cons name rest ih =>
    obtain ⟨hname, hrest⟩ := List.nodup_cons.mp hnames
    by_cases hne : name = live
    · subst hne
      rw [doomed_cons_self, retainedCatalog_cons]
      by_cases hactive : name = active
      · subst hactive
        have : retainedCatalog root world isUuid name none rest true catalog name =
          catalog name := retainedCatalog_active
        simp [visit, afterVisit, Exposed, this]
      · by_cases hinspects : world.Inspects name
        · have htried : visit root world isUuid active none name true (catalog name) = .tried := by
            simp [visit, hactive, inspection_of_inspects huuid hinspects]
          have hafter :
            afterVisit root world isUuid active none name rest true catalog .tried name =
              (tryRemoveSearchGeneration root world name (catalog name)).2 := by
            rcases afterVisit_tried name rest true catalog rfl with ⟨_, _, h⟩ | ⟨_, _, h⟩
            · rw [h, Catalog.set_self]
            · rw [h, retainedCatalog_frame hname, Catalog.set_self]
          rw [htried, hafter, tryRemove_changes_iff hlive]
          simp [Exposed, hactive, hinspects]
        · have hkept : afterVisit root world isUuid active none name rest true catalog
              (visit root world isUuid active none name true (catalog name)) name =
                catalog name := by
            rcases @inspection_of_not_inspects root world isUuid name (catalog name) huuid
              hinspects with ⟨_, h⟩ | ⟨_, error, h⟩
            · simp only [visit, if_neg hactive, h, afterVisit]
              exact retainedCatalog_frame hname
            · simp [visit, hactive, h, afterVisit]
          simp [hkept, Exposed, hinspects]
    · obtain ⟨catalog', hagree, hiff⟩ :=
        @changes_cons_iff root world isUuid active live name rest true catalog hne
          visit_not_retained
      have hlive' : catalog' live = catalog live := hagree live (Ne.symm hne)
      have hrest' : ∀ x ∈ rest, catalog' x = catalog x := fun x hx =>
        hagree x fun h => hname (h ▸ hx)
      rw [hiff, doomed_cons hne, ih hrest (hlive' ▸ hlive)]
      exact and_congr_right fun _ => ⟨Doomed.congr hrest',
        Doomed.congr fun x hx => (hrest' x hx).symm⟩

theorem ne_none_of_isValid {name : String} {content : Option SearchGeneration}
    (h : isValid name content = true) : content ≠ none := by
  rintro rfl
  simp [isValid, readSearchGenerationCompletion] at h

/-- With nothing pinned, `live` is lost exactly when another generation takes the slot. -/
theorem lost_iff_overtaken {live : String} {names : List String} {catalog : Catalog}
    (hnames : names.Nodup) (huuid : isUuid live = true)
    (hvalid : isValid live (catalog live) = true) :
    retainedCatalog root world isUuid active none names false catalog live ≠ catalog live ↔
      Overtaken world isUuid active catalog live names := by
  induction names generalizing catalog with
  | nil =>
    constructor
    · intro h
      exact absurd rfl h
    · rintro ⟨before, rollback, after, hnames, _⟩
      simp at hnames
  | cons name rest ih =>
    obtain ⟨hname, hrest⟩ := List.nodup_cons.mp hnames
    by_cases hne : name = live
    · subst hne
      refine iff_of_false ?_ (not_overtaken_cons_self hname)
      rw [not_not, retainedCatalog_cons]
      have htried := @visit_of_valid root world isUuid active none name _ huuid hvalid (by simp)
      cases hvisit : visit root world isUuid active none name false (catalog name) with
      | ended => rfl
      | skipped => exact retainedCatalog_frame hname
      | retained => exact retainedCatalog_frame hname
      | tried => exact absurd hvisit htried
    · by_cases hcompleted : Completed world isUuid active name (catalog name)
      · rw [overtaken_cons_completed hcompleted, ← lost_iff_doomed hrest huuid
          (ne_none_of_isValid hvalid), retainedCatalog_cons, visit_retained_iff.mpr hcompleted]
        exact Iff.rfl
      · obtain ⟨catalog', hagree, hiff⟩ :=
          @changes_cons_iff root world isUuid active live name rest false catalog hne
            (mt visit_retained_iff.mp hcompleted)
        have hlive' : catalog' live = catalog live := hagree live (Ne.symm hne)
        have hrest' : ∀ x ∈ rest, catalog' x = catalog x := fun x hx =>
          hagree x fun h => hname (h ▸ hx)
        have hvalid' : isValid live (catalog' live) = true := by
          rw [hlive']
          exact hvalid
        rw [hiff, overtaken_cons hcompleted, ih hrest hvalid']
        exact and_congr_right fun _ => ⟨Overtaken.congr hrest',
          Overtaken.congr fun x hx => (hrest' x hx).symm⟩

end Pass

/-- The pass keeps the active generation, the generation of the live publication, and every
generation that another handle holds. -/
structure Spares (world : CatalogWorld) (active live : String) (before after : Catalog) : Prop where
  active : after active = before active
  live : after live = before live
  held : ∀ name, world.HoldsAtRemoval name → after name = before name

/-- The read of the live database does not return the live publication, and in the order of the
pass another completed generation takes the rollback slot before the live one is reached. -/
def Overlooks (world : CatalogWorld) (isUuid : String → Bool) (active : String)
    (live : IndexPublicationRecord) (read : Except StorageError (Option IndexPublicationRecord))
    (catalog : Catalog) : Prop :=
  read ≠ .ok (some live) ∧ world.rootIsDir = true ∧ world.deletionRootError = none ∧
    ∃ listing, world.listing = .ok listing ∧
      Overtaken world isUuid active catalog live.generationId
        (generationsByModification world listing)

/-- A read of the live database returns its publication, or nothing, or fails. -/
def ReadsLive (live : IndexPublicationRecord)
    (read : Except StorageError (Option IndexPublicationRecord)) : Prop :=
  ∀ record, read = .ok (some record) → record = live

theorem generationsByModification_nodup (world : CatalogWorld) (listing : Listing) :
    (generationsByModification world listing).Nodup :=
  (List.perm_insertionSort _ _).nodup_iff.mpr (listing.distinct.filter _)

section Prune
variable (root : CatalogRoot) (world : CatalogWorld) (isUuid : String → Bool)
  (active : String) (read : Except StorageError (Option IndexPublicationRecord))
  (catalog : Catalog)

/-- Either the pass leaves the catalog alone, or it runs over a listing. -/
theorem prune_cases :
    ((pruneSearchGenerations root world isUuid active read catalog).2 = catalog ∧
      ¬ (world.rootIsDir = true ∧ world.deletionRootError = none ∧
        ∃ listing, world.listing = .ok listing)) ∨
    (world.rootIsDir = true ∧ world.deletionRootError = none ∧
      ∃ listing, world.listing = .ok listing ∧
        (pruneSearchGenerations root world isUuid active read catalog).2 =
          retainedCatalog root world isUuid active (pinnedRollback read active)
            (generationsByModification world listing) false catalog) := by
  unfold pruneSearchGenerations
  cases hdir : world.rootIsDir with
  | false => exact Or.inl ⟨rfl, by simp⟩
  | true =>
    cases herror : world.deletionRootError with
    | some error => exact Or.inl ⟨rfl, by simp⟩
    | none =>
      cases hlisting : world.listing with
      | error error => exact Or.inl ⟨rfl, by simp⟩
      | ok listing => exact Or.inr ⟨rfl, rfl, listing, rfl, rfl⟩

theorem prune_keeps_active :
    (pruneSearchGenerations root world isUuid active read catalog).2 active = catalog active := by
  rcases prune_cases root world isUuid active read catalog with ⟨h, _⟩ | ⟨_, _, listing, _, h⟩
  · rw [h]
  · rw [h]
    exact retainedCatalog_active

theorem prune_keeps_held {name : String} (hheld : world.HoldsAtRemoval name) :
    (pruneSearchGenerations root world isUuid active read catalog).2 name = catalog name := by
  rcases prune_cases root world isUuid active read catalog with ⟨h, _⟩ | ⟨_, _, listing, _, h⟩
  · rw [h]
  · rw [h]
    exact retainedCatalog_held hheld

theorem pinnedRollback_of_live {live : IndexPublicationRecord}
    (hne : live.generationId ≠ active) :
    pinnedRollback (.ok (some live)) active = some live.generationId := by
  simp [pinnedRollback, Except.toOption, hne]

theorem pinnedRollback_of_not_live {live : IndexPublicationRecord} (hread : ReadsLive live read)
    (hne : read ≠ .ok (some live)) : pinnedRollback read active = none := by
  unfold pinnedRollback
  cases read with
  | error error => rfl
  | ok found =>
    cases found with
    | none => rfl
    | some record =>
      have := hread record rfl
      subst this
      exact absurd rfl hne

/-- The generation of the live publication survives unless it is overlooked. -/
theorem prune_keeps_live_iff {live : IndexPublicationRecord}
    (huuid : isUuid live.generationId = true)
    (hvalid : isValid live.generationId (catalog live.generationId) = true)
    (hread : ReadsLive live read) :
    (pruneSearchGenerations root world isUuid active read catalog).2 live.generationId =
        catalog live.generationId ↔
      ¬ Overlooks world isUuid active live read catalog := by
  by_cases hactive : live.generationId = active
  · refine iff_of_true (hactive ▸ prune_keeps_active root world isUuid _ read catalog) ?_
    rintro ⟨_, _, _, listing, _, before, rollback, after, _, _, _, _, _, _, _, hexposed⟩
    exact hexposed.1 hactive
  rcases prune_cases root world isUuid active read catalog with
    ⟨h, hnot⟩ | ⟨hdir, herror, listing, hlisting, h⟩
  · refine iff_of_true (by rw [h]) ?_
    rintro ⟨_, hdir, herror, listing, hlisting, _⟩
    exact hnot ⟨hdir, herror, listing, hlisting⟩
  rw [h]
  have hnames := generationsByModification_nodup world listing
  by_cases hlive : read = .ok (some live)
  · refine iff_of_true ?_ (fun h => h.1 hlive)
    rw [hlive, pinnedRollback_of_live active hactive]
    exact retainedCatalog_pinned hnames huuid hvalid
  · rw [pinnedRollback_of_not_live active read hread hlive, ← not_iff_not, not_not,
      ← ne_eq, lost_iff_overtaken hnames huuid hvalid]
    constructor
    · intro hovertaken
      exact ⟨hlive, hdir, herror, listing, hlisting, hovertaken⟩
    · rintro ⟨_, _, _, listing', hlisting', hovertaken⟩
      rw [hlisting] at hlisting'
      cases hlisting'
      exact hovertaken

/-- Pruning keeps what it must keep exactly when it does not overlook the live generation. -/
theorem prune_spares_iff (live : IndexPublicationRecord)
    (huuid : isUuid live.generationId = true)
    (hvalid : isValid live.generationId (catalog live.generationId) = true)
    (hread : ReadsLive live read) :
    Spares world active live.generationId catalog
        (pruneSearchGenerations root world isUuid active read catalog).2 ↔
      ¬ Overlooks world isUuid active live read catalog := by
  rw [← prune_keeps_live_iff root world isUuid active read catalog huuid hvalid hread]
  constructor
  · intro h
    exact h.live
  · intro h
    exact ⟨prune_keeps_active root world isUuid active read catalog, h,
      fun name hheld => prune_keeps_held root world isUuid active read catalog hheld⟩

end Prune

section Sample

/-- The hyphenated form of a UUID, one of those that `Uuid::parse_str` accepts. -/
def isHyphenatedUuid (name : String) : Bool :=
  name.toList.length = 36 && name.toList.zipIdx.all fun (c, i) =>
    if i = 8 || i = 13 || i = 18 || i = 23 then c = '-'
    else ('0' ≤ c && c ≤ '9') || ('a' ≤ c && c ≤ 'f') || ('A' ≤ c && c ≤ 'F')

def preparedId : String := "77777777-7777-4777-8777-777777777777"

def liveId : String := "44444444-4444-4444-8444-444444444444"

def concurrentId : String := "66666666-6666-4666-8666-666666666666"

def completedGeneration (name : String) : SearchGeneration :=
  ⟨some ⟨searchGenerationCompletionSchemaVersion, name, 1, 1⟩, some 1⟩

def sampleCatalog : Catalog := fun name =>
  if name = preparedId ∨ name = liveId ∨ name = concurrentId then some (completedGeneration name)
  else none

/-- No lock is held, no call fails; the live generation is the oldest. -/
def sampleWorld : CatalogWorld where
  rootIsDir := true
  deletionRootError := none
  listing := .ok ⟨[liveId, preparedId, concurrentId], by decide⟩
  modified := fun name =>
    if name = preparedId then some 3 else if name = concurrentId then some 2 else some 1
  inspection := fun _ => .held .free
  removalLock := fun _ => .held .free
  removal := fun _ => .done

def sampleLive : IndexPublicationRecord := ⟨1, liveId, "run-1", .full, 0⟩

def sampleRoot : CatalogRoot := ⟨"cache", "codestory.search-generations"⟩

theorem prune_spares_live_when_read :
    Spares sampleWorld preparedId liveId sampleCatalog
      (pruneSearchGenerations sampleRoot sampleWorld isHyphenatedUuid preparedId
        (.ok (some sampleLive)) sampleCatalog).2 := by
  apply (prune_spares_iff sampleRoot sampleWorld isHyphenatedUuid preparedId
    (.ok (some sampleLive)) sampleCatalog sampleLive (by decide) (by decide)
    ?_).mpr
  · intro h
    exact h.1 rfl
  · intro record h
    cases h
    rfl

/-- A busy database is read as no publication, and the live generation is deleted. -/
theorem failed_read_loses_live :
    isHyphenatedUuid sampleLive.generationId = true ∧
    isValid sampleLive.generationId (sampleCatalog sampleLive.generationId) = true ∧
    ReadsLive sampleLive (.error (.sqlite "database is locked")) ∧
    (pruneSearchGenerations sampleRoot sampleWorld isHyphenatedUuid preparedId
      (.error (.sqlite "database is locked")) sampleCatalog).2 liveId = none ∧
    ¬ Spares sampleWorld preparedId sampleLive.generationId sampleCatalog
      (pruneSearchGenerations sampleRoot sampleWorld isHyphenatedUuid preparedId
        (.error (.sqlite "database is locked")) sampleCatalog).2 := by
  have hlost : (pruneSearchGenerations sampleRoot sampleWorld isHyphenatedUuid preparedId
      (.error (.sqlite "database is locked")) sampleCatalog).2 liveId = none := by
    decide
  refine ⟨by decide, by decide, ?_, hlost, ?_⟩
  · intro record h
    cases h
  · intro h
    have hlive := h.live.symm.trans hlost
    revert hlive
    decide

end Sample

end CodeStory.Search
