/-
**What the entries of a manifest do to a registry in step.**

An entry that is accepted leaves the registry in step, puts the namespaces on the way to its own,
and says what it says about one entity.

Main definitions:

* `Manifest.step`: what is found at each path after an entry;
* `Manifest.Applied`: an entry is accepted and does what it says;
* `Manifest.outcome`: what is found at each path after a manifest.

Main results:

* `Manifest.describe_eq_ok`, `Manifest.enrol_ok`: a method is described and registered;
* `Manifest.loadEntry_ok`: **an accepted entry does what it says**;
* `Manifest.load_ok`: **so does an accepted manifest**.
-/

import DocCatalog.Proofs.Manifest.Said
import DocCatalog.Proofs.Registry.Namespaces

set_option autoImplicit false

namespace DocCatalog

open Catalog

/-! ### What an entry says about an entity -/

theorem Entity.profile_addFile (x : Entity) (file line : Value) :
    (x.addFile file line).profile = { x.profile with files := addPlace x.files (file, line) } := by
  unfold Entity.addFile addPlace
  split <;> rfl

namespace Manifest

variable {c c' : Catalog} {r : Registry} {e m : EntityId} {entry : Fields} {part : Part}

theorem retouches_updateMethod (c : Catalog) (e : EntityId) {f : MethodFields → MethodFields}
    (hf : ∀ m, (f m).scope = m.scope) : Retouches e c (c.update e fun x => x.updateMethod f) :=
  .update c e (Entity.identity_updateMethod hf) fun x => x.slots_updateMethod f

theorem profile_update (hk : c.Knows e) (f : Entity → Entity) :
    ((c.update e f).entity e).profile = (f (c.entity e)).profile := by
  rw [entity_update c e e f hk, if_pos rfl]

theorem document_eq_ok (h : document e entry part c = (.ok (), c')) :
    Retouches e c c' ∧ (c.Knows e → (c'.entity e).profile =
      { (c.entity e).profile with
        docstring := (docstringOf? entry).getD (c.entity e).docstring }) := by
  unfold document at h
  split at h
  · obtain ⟨docstring, c₁, hread, hset⟩ := Action.bind_eq_ok h
    obtain ⟨htext, rfl⟩ := Action.lift_eq_ok hread
    cases hset
    refine ⟨.update c₁ e (fun _ => rfl) fun _ => rfl, fun hk => ?_⟩
    have hdoc : docstringOf? entry = some (.text docstring) := text_eq_ok htext
    rw [hdoc]
    exact profile_update hk _
  · next hno =>
      cases h
      have hdoc : docstringOf? entry = none := by simpa [docstringOf?] using hno
      exact ⟨.refl e c, fun _ => by rw [hdoc]; rfl⟩

theorem locate_eq_ok (h : locate e entry part c = (.ok (), c')) :
    Retouches e c c' ∧ (c.Knows e → (c'.entity e).profile =
      { (c.entity e).profile with
        files := match placeOf? entry with
          | some place => addPlace (c.entity e).files place
          | none => (c.entity e).files }) := by
  unfold locate at h
  obtain ⟨place, c₁, hread, hadd⟩ := Action.bind_eq_ok h
  obtain ⟨hplace, rfl⟩ := Action.lift_eq_ok hread
  rw [place?_eq_ok hplace]
  cases place with
  | some place =>
      cases hadd
      exact ⟨.update c₁ e (fun x => x.identity_addFile _ _) fun x => x.slots_addFile _ _,
        fun hk => (profile_update hk _).trans (Entity.profile_addFile _ _ _)⟩
  | none =>
      cases hadd
      exact ⟨.refl e _, fun _ => rfl⟩

/-- Documentation and place are given to an entity as the entry says. -/
theorem annotate_eq_ok (h : annotate e entry part c = (.ok (), c')) :
    Retouches e c c' ∧
      (c.Knows e → (c'.entity e).profile = (c.entity e).profile.annotate entry) := by
  unfold annotate at h
  obtain ⟨_, c₁, hdoc, hloc⟩ := Action.bind_eq_ok h
  obtain ⟨ht₁, hp₁⟩ := document_eq_ok hdoc
  obtain ⟨ht₂, hp₂⟩ := locate_eq_ok hloc
  refine ⟨ht₁.trans ht₂, fun hk => ?_⟩
  have hfiles : (c₁.entity e).files = (c.entity e).files := congrArg Profile.files (hp₁ hk)
  rw [hp₂ (ht₁.knows.2 hk), hp₁ hk, hfiles]
  rfl

theorem isPlace_of_annotate (h : annotate e entry part c = (.ok (), c')) {place : Value × Value}
    (hplace : placeOf? entry = some place) : IsPlace place := by
  obtain ⟨_, c₁, -, hloc⟩ := Action.bind_eq_ok h
  obtain ⟨p, c₂, hread, -⟩ := Action.bind_eq_ok hloc
  exact isPlace_of_place? (Action.lift_eq_ok hread).1 hplace

/-- A method without documentation and place. -/
def blankMethod (f : MethodFields) : Profile := { kind := .method, method? := some f }

/-- A change to the fields of a method, the scope left alone. -/
theorem change_fields {f : MethodFields} {g : MethodFields → MethodFields} (hk : c.Knows m)
    (hm : (c.entity m).profile = blankMethod f) (hg : ∀ f, (g f).scope = f.scope) :
    Retouches m c (c.update m fun x => x.updateMethod g) ∧
      ((c.update m fun x => x.updateMethod g).entity m).profile = blankMethod (g f) := by
  refine ⟨retouches_updateMethod c m hg, ?_⟩
  have hfields : (c.entity m).method? = some f := congrArg Profile.method? hm
  rw [profile_update hk, Entity.profile_updateMethod, hm, hfields]
  rfl

theorem expose_eq_ok {f : MethodFields} (hk : c.Knows m)
    (hm : (c.entity m).profile = blankMethod f) (hf : f.visibility = r.config.visibility)
    (h : expose m entry c = (.ok (), c')) :
    ∃ w, visibilityOf? r entry = some w ∧ Retouches m c c' ∧
      (c'.entity m).profile = blankMethod { f with visibility := w } := by
  unfold expose at h
  cases hv : Value.field? entry "visibility" with
  | some v =>
      simp only [hv, setVisibility] at h
      cases hw : Visibility.ofValue? v with
      | none => simp only [hw] at h; cases h
      | some w =>
          simp only [hw] at h
          cases h
          have hset := change_fields (g := fun f => { f with visibility := w }) hk hm fun _ => rfl
          exact ⟨w, by simp [visibilityOf?, hv, hw], hset⟩
  | none =>
      simp only [hv] at h
      cases h
      exact ⟨r.config.visibility, by rw [visibilityOf?, hv], .refl m c, by rw [hm, ← hf]⟩

theorem setParameters_eq_ok {f : MethodFields} {items : List Value} (hk : c.Knows m)
    (hm : (c.entity m).profile = blankMethod f)
    (h : setParameters m (.list items) c = (.ok (), c')) :
    ∃ ps, Parameter.ofItems items = .ok ps ∧ Retouches m c c' ∧
      (c'.entity m).profile = blankMethod { f with parameters := ps } := by
  unfold setParameters at h
  cases hps : Parameter.ofValue (.list items) with
  | error fault => simp only [hps] at h; cases h
  | ok ps =>
      simp only [hps] at h
      cases h
      exact ⟨ps, hps, change_fields (g := fun f => { f with parameters := ps }) hk hm fun _ => rfl⟩

/-- A new method is described as the entry says, and has nothing else. -/
theorem describe_eq_ok {s : Scope} (hs : scopeOf? entry = some s) (hk : c.Knows m)
    (hm : (c.entity m).profile = blankMethod { scope := s, visibility := r.config.visibility })
    (h : describe m entry c = (.ok (), c')) :
    Retouches m c c' ∧ methodProfile? r entry = some (c'.entity m).profile := by
  unfold describe at h
  obtain ⟨_, c₁, hexpose, h₁⟩ := Action.bind_eq_ok h
  obtain ⟨w, hw, ht₁, hm₁⟩ := expose_eq_ok (r := r) hk hm rfl hexpose
  obtain ⟨items, c₂, hread, h₂⟩ := Action.bind_eq_ok h₁
  obtain ⟨hitems, rfl⟩ := Action.lift_eq_ok hread
  obtain ⟨_, c₃, hset, h₃⟩ := Action.bind_eq_ok h₂
  obtain ⟨ps, hps, ht₃, hm₃⟩ := setParameters_eq_ok (ht₁.knows.2 hk) hm₁ hset
  have ht := ht₁.trans ht₃
  obtain ⟨_, c₄, hexplicit, hannotate⟩ := Action.bind_eq_ok h₃
  obtain ⟨ht₄, hm₄⟩ := change_fields
    (g := fun f => { f with explicit := (Value.field? entry "explicit").getD .null })
    (ht.knows.2 hk) hm₃ fun _ => rfl
  cases hexplicit
  obtain ⟨ht₅, hm₅⟩ := annotate_eq_ok hannotate
  refine ⟨(ht.trans ht₄).trans ht₅, ?_⟩
  have hend := (hm₅ ((ht.trans ht₄).knows.2 hk)).trans (congrArg (Profile.annotate · entry) hm₄)
  rw [hend, methodProfile?, methodFieldsOf?, hs, hw, parameters_eq_ok hitems hps]
  cases hd : docstringOf? entry <;> cases hpl : placeOf? entry <;>
    simp [Profile.annotate, blankMethod, hd, hpl, addPlace]

/-! ### Entries -/

/-- The paths of the namespaces on the way that an entry mentions. -/
def trailOf (r : Registry) (part : Part) (entry : Fields) : List String :=
  r.separators.trail "" (spaceNames r (spaceOf part entry))

/-- What is found at each path after an entry, when the namespaces on its way are there. -/
def arrive (r : Registry) (v : View) (part : Part) (entry : Fields) : View :=
  match part with
  | .namespaces => v.amend (spaceOf .namespaces entry) (Profile.annotate · entry)
  | .methods =>
      match methodPath? r entry, methodProfile? r entry with
      | some path, some f => v.put path f
      | _, _ => v
  | _ => v

/-- What is found at each path after an entry: the namespaces on its way, and what it says. -/
def step (r : Registry) (v : View) (part : Part) (entry : Fields) : View :=
  arrive r (v.reach (trailOf r part entry)) part entry

/-- An entry is accepted, keeps a registry in step, and does what it says. -/
structure Applied (r : Registry) (part : Part) (entry : Fields) (c c' : Catalog) : Prop where
  accepted : Accepted r part entry
  lockstep : Lockstep r c'
  view_eq : c'.view r = step r (c.view r) part entry
  /-- What is held goes on being held, but for a method whose place is taken. -/
  retains : ∀ p e, (c.entries r).get? p = some e →
    (part = .methods → methodPath? r entry ≠ some p) → (c'.entries r).get? p = some e

/-- The namespaces on the way of an entry are there or made. -/
theorem reach_ok (h : Lockstep r c) (hclean : Clean r part entry) {path : String} {n : EntityId}
    (hpath : spaceOf part entry = path) (hok : ensureNamespace r path c = (.ok n, c')) :
    Lockstep r c' ∧ Stands r c' n path ∧
      c'.view r = (c.view r).reach (trailOf r part entry) ∧ Retains r c c' := by
  subst hpath
  obtain ⟨n', c₁, hrun, hlock, hn, hv, hkeep⟩ := ensureNamespace_ok h hclean.space
  cases hok.symm.trans hrun
  exact ⟨hlock, hn, hv, hkeep⟩

theorem loadNamespace_ok (h : Lockstep r c) (hclean : Clean r .namespaces entry)
    (hok : loadNamespace r entry c = (.ok (), c')) : Applied r .namespaces entry c c' := by
  unfold loadNamespace at hok
  obtain ⟨path, c₁, hread, h₁⟩ := Action.bind_eq_ok hok
  obtain ⟨htext, rfl⟩ := Action.lift_eq_ok hread
  obtain ⟨n, c₂, hreach, hannotate⟩ := Action.bind_eq_ok h₁
  have hpath := spaceOf_of_text htext
  obtain ⟨hlock, hn, hv, hkeep⟩ := reach_ok h hclean hpath hreach
  obtain ⟨ht, hp⟩ := annotate_eq_ok hannotate
  have hview := hlock.view_retouch ht (g := (Profile.annotate · entry)) (hp hn.knows)
    (hn.registered hlock)
  rw [hn.path_eq, hv] at hview
  refine ⟨⟨fun hp => (by cases hp), fun _ place => isPlace_of_annotate hannotate⟩,
    hlock.retouch ht, hview.trans ?_, fun p e he _ => ?_⟩
  · rw [step, arrive, hpath]
  · rw [ht.entries]
    exact hkeep p e he

theorem makeMethod_eq_ok {o : Origin} {v : Value} (hh : c.homeOf? o = some r)
    (h : makeMethod o v c = (.ok m, c')) :
    ∃ s, Scope.ofValue? v = some s ∧ m = ⟨c.entities.size⟩ ∧
      c' = c.founded (c.newEntity o r fun home =>
        .method { scope := s, visibility := home.config.visibility }) := by
  unfold makeMethod at h
  cases hs : Scope.ofValue? v with
  | none => simp only [hs] at h; cases h
  | some s =>
      simp only [hs] at h
      cases (make_of_homeOf? hh).symm.trans h
      exact ⟨s, rfl, rfl, rfl⟩

/-- A method that is made below a namespace, described and registered is found at its path as its
entry says, whoever was found there before. -/
theorem enrol_ok (h : Lockstep r c) {n : EntityId} {path name : String} (hn : Stands r c n path)
    (hname : r.separators.Plain name)
    (hok : (do
      let m ← makeMethod { owner? := some n, name := .text name } (scopeField entry)
      describe m entry
      register r m : Action Unit) c = (.ok (), c')) :
    Lockstep r c' ∧ ∃ s f, scopeOf? entry = some s ∧ methodProfile? r entry = some f ∧
      c'.view r = (c.view r).put (r.separators.methodPath name path s) f ∧
      ∀ p, r.separators.methodPath name path s ≠ p →
        (c'.entries r).get? p = (c.entries r).get? p := by
  obtain ⟨m, c₁, hmake, h₁⟩ := Action.bind_eq_ok hok
  obtain ⟨_, c₂, hdescribe, hregister⟩ := Action.bind_eq_ok h₁
  obtain ⟨s, hs, hm, hfounded⟩ :=
    makeMethod_eq_ok (r := r) (by simp [homeOf?, hn.home]) hmake
  subst hm hfounded
  have hx := placed_newEntity (o := { owner? := some n, name := .text name }) hn rfl hname
    (fun home => .method { scope := s, visibility := home.config.visibility }) (.inr rfl)
  obtain ⟨ht, hp⟩ := describe_eq_ok (r := r) hs (c.knows_founded _)
    (Entity.profile_eq_of_bare (c.bare_founded_self _)) hdescribe
  have hset := Entity.settled_eq_of_identity (identity_welcome ht)
  have hhome := (Entity.home_eq_of_settled hset).trans hx.home
  cases hregister.symm.trans (register_of_home hhome)
  have hpath := path_of_method hx (owner?_newEntity _ _ _ _) (s := s) rfl hn
  refine ⟨h.welcome hx ht rfl fun hk => (by cases hk), s, _, hs, hp, ?_, fun p hne => ?_⟩
  · rw [view_welcome h.wellFormed hx ht, hpath]
    rfl
  · rw [get?_entries_welcome hx ht h.wellFormed, hpath]
    exact if_neg hne

theorem loadMethod_ok (h : Lockstep r c) (hclean : Clean r .methods entry)
    (hok : loadMethod r entry c = (.ok (), c')) : Applied r .methods entry c c' := by
  unfold loadMethod at hok
  obtain ⟨path, c₁, hread, h₁⟩ := Action.bind_eq_ok hok
  obtain ⟨htext, rfl⟩ := Action.lift_eq_ok hread
  obtain ⟨n, c₂, hreach, h₂⟩ := Action.bind_eq_ok h₁
  have hpath := spaceOf_of_textOr (by simp) htext
  obtain ⟨hlock, hn, hv, hkeep⟩ := reach_ok h hclean hpath hreach
  obtain ⟨name, c₃, hread', h₃⟩ := Action.bind_eq_ok h₂
  obtain ⟨hname, rfl⟩ := Action.lift_eq_ok hread'
  have hname := nameOf_of_text hname
  obtain ⟨hlock', s, f, hs, hf, hv', hother⟩ := enrol_ok hlock hn (hname ▸ hclean.name rfl) h₃
  have hpath? : methodPath? r entry = some (r.separators.methodPath name path s) := by
    rw [methodPath?, hs, hname, hpath]
    rfl
  refine ⟨⟨fun _ => ⟨_, f, hpath?, hf⟩, fun hp => (by cases hp)⟩, hlock', ?_,
    fun p e he hne => ?_⟩
  · rw [hv', hv, step, arrive, hpath?, hf]
  · rw [hother p fun hp => hne rfl (hp ▸ hpath?)]
    exact hkeep p e he

/-- An attribute is written down in its namespace, which shows in no profile. -/
theorem retouches_updateTables (c : Catalog) (n : EntityId) {f : Tables → Tables}
    (hf : ∀ t, (f t).members = t.members) : Retouches n c (c.updateTables n f) :=
  .update c n (fun x => x.identity_updateTables f) (Entity.slots_updateTables_of_members hf)

theorem profile_updateTables (c : Catalog) (n e : EntityId) (f : Tables → Tables) :
    ((c.updateTables n f).entity e).profile = (c.entity e).profile :=
  Entity.profile_eq_of_bare (c.bare_updateTables n e f)

theorem addAttribute_eq_ok {n : EntityId} {scope name : Value} {read write : Option EntityId}
    {a : Accessors} (h : addAttribute n scope name read write c = (.ok a, c')) :
    Retouches n c c' ∧ (c'.entity n).profile = (c.entity n).profile := by
  unfold addAttribute at h
  cases hs : Scope.ofValue? scope with
  | none => simp only [hs] at h; cases h
  | some s =>
      simp only [hs] at h
      obtain ⟨_, c₁, hfirst, h₁⟩ := Action.bind_eq_ok (Action.get_eq_ok h)
      cases hfirst
      cases hname : name.unhashableKind? with
      | some kind => simp only [hname] at h₁; cases h₁
      | none =>
          simp only [hname] at h₁
          cases h₁
          refine ⟨(retouches_updateTables c n fun t => ?_).trans
            (retouches_updateTables _ n fun t => ?_), ?_⟩
          · simp
          · simp
          · exact (profile_updateTables _ n n _).trans (profile_updateTables c n n _)

theorem loadAttribute_ok (h : Lockstep r c) (hclean : Clean r .attributes entry)
    (hok : loadAttribute r entry c = (.ok (), c')) : Applied r .attributes entry c c' := by
  unfold loadAttribute at hok
  obtain ⟨path, c₁, hread, h₁⟩ := Action.bind_eq_ok hok
  obtain ⟨htext, rfl⟩ := Action.lift_eq_ok hread
  obtain ⟨n, c₂, hreach, h₂⟩ := Action.bind_eq_ok h₁
  have hpath := spaceOf_of_textOr (by simp) htext
  obtain ⟨hlock, hn, hv, hkeep⟩ := reach_ok h hclean hpath hreach
  -- name and accessors are read, which changes nothing
  obtain ⟨name, c₃, hname, h₃⟩ := Action.bind_eq_ok h₂
  cases (Action.lift_eq_ok hname).2
  obtain ⟨readPath?, c₄, hreadPath, h₄⟩ := Action.bind_eq_ok (Action.get_eq_ok h₃)
  cases (Action.lift_eq_ok hreadPath).2
  obtain ⟨read, c₅, hmethod, h₅⟩ := Action.bind_eq_ok h₄
  cases (Action.lift_eq_ok hmethod).2
  obtain ⟨writePath?, c₆, hwritePath, h₆⟩ := Action.bind_eq_ok (Action.get_eq_ok h₅)
  cases (Action.lift_eq_ok hwritePath).2
  obtain ⟨write, c₇, hmethod', h₇⟩ := Action.bind_eq_ok h₆
  cases (Action.lift_eq_ok hmethod').2
  obtain ⟨_, c₈, hadd, hend⟩ := Action.bind_eq_ok h₇
  cases hend
  obtain ⟨ht, hp⟩ := addAttribute_eq_ok hadd
  refine ⟨⟨fun hp => (by cases hp), fun hp => (by cases hp)⟩, hlock.retouch ht,
    (ht.view_eq hp r).trans hv, fun p e he _ => ?_⟩
  rw [ht.entries]
  exact hkeep p e he

theorem loadAlias_ok (h : Lockstep r c) (hclean : Clean r .aliases entry)
    (hok : loadAlias r entry c = (.ok (), c')) : Applied r .aliases entry c c' := by
  unfold loadAlias at hok
  obtain ⟨path, c₁, hread, h₁⟩ := Action.bind_eq_ok hok
  obtain ⟨htext, rfl⟩ := Action.lift_eq_ok hread
  obtain ⟨n, c₂, hreach, h₂⟩ := Action.bind_eq_ok h₁
  have hpath := spaceOf_of_textOr (by simp) htext
  obtain ⟨hlock, hn, hv, hkeep⟩ := reach_ok h hclean hpath hreach
  obtain ⟨methodPath, c₃, hmethodPath, h₃⟩ := Action.bind_eq_ok (Action.get_eq_ok h₂)
  cases (Action.lift_eq_ok hmethodPath).2
  obtain ⟨m, c₄, hmethod, h₄⟩ := Action.bind_eq_ok h₃
  cases (Action.lift_eq_ok hmethod).2
  obtain ⟨name, c₅, hname, hadd⟩ := Action.bind_eq_ok h₄
  cases (Action.lift_eq_ok hname).2
  cases hadd
  have ht := retouches_updateTables c₂ n
    (f := fun t => { t with aliases := t.aliases.insert (some m) (Value.text name).display })
    fun _ => rfl
  refine ⟨⟨fun hp => (by cases hp), fun hp => (by cases hp)⟩, hlock.retouch ht,
    (ht.view_eq (profile_updateTables c₂ n n _) r).trans hv, fun p e he _ => ?_⟩
  exact (congrArg (OrderedTable.get? · p) (ht.entries r)).trans (hkeep p e he)

/-- **An accepted entry with plain names keeps a registry in step, and does what it says.** -/
theorem loadEntry_ok (h : Lockstep r c) (hclean : Clean r part entry)
    (hok : loadEntry r part entry c = (.ok (), c')) : Applied r part entry c c' := by
  cases part with
  | namespaces => exact loadNamespace_ok h hclean hok
  | methods => exact loadMethod_ok h hclean hok
  | attributes => exact loadAttribute_ok h hclean hok
  | aliases => exact loadAlias_ok h hclean hok

/-! ### Manifests -/

/-- The entries of a section of a manifest. -/
def entriesIn (data : Value) (part : Part) : List Fields :=
  match sections data with
  | .ok fields =>
      match entriesOf fields part with
      | .ok entries => entries
      | .error _ => []
  | .error _ => []

/-- All entries of a manifest with their sections, in the order in which they are loaded. -/
def rows (data : Value) : List (Part × Fields) :=
  Part.all.flatMap fun part => (entriesIn data part).map fun entry => (part, entry)

/-- What is found at each path of a registry when a manifest is loaded into it. -/
def outcome (r : Registry) (v : View) (data : Value) : View :=
  (rows data).foldl (fun v row => step r v row.1 row.2) v

theorem loadPart_ok (h : Lockstep r c) {data : Value} {fields : Fields}
    (hfields : sections data = .ok fields)
    (hclean : ∀ entry ∈ entriesIn data part, Clean r part entry)
    (hok : loadPart r fields part c = (.ok (), c')) :
    (∀ entry ∈ entriesIn data part, Accepted r part entry) ∧ Lockstep r c' ∧
      c'.view r = (entriesIn data part).foldl (fun v entry => step r v part entry) (c.view r) := by
  obtain ⟨entries, c₁, hread, hall⟩ := Action.bind_eq_ok
    (show (liftM (entriesOf fields part) >>= fun entries => entries.forM (loadEntry r part)) c =
      (.ok (), c') from hok)
  obtain ⟨hentries, rfl⟩ := Action.lift_eq_ok hread
  have hin : entriesIn data part = entries := by simp [entriesIn, hfields, hentries]
  rw [hin] at hclean ⊢
  refine ⟨Action.forM_all (P := Lockstep r) ?_ h hall,
    Action.forM_fold (P := fun c v => Lockstep r c ∧ c.view r = v) ?_ ⟨h, rfl⟩ hall⟩
  · intro entry hentry c c' h hok
    have happlied := loadEntry_ok h (hclean entry hentry) hok
    exact ⟨happlied.lockstep, happlied.accepted⟩
  · rintro entry hentry c c' v ⟨h, rfl⟩ hok
    have happlied := loadEntry_ok h (hclean entry hentry) hok
    exact ⟨happlied.lockstep, happlied.view_eq⟩

/-- **An accepted manifest with plain names keeps a registry in step, and does what its entries
say**, one after the other. -/
theorem load_ok (h : Lockstep r c) {data : Value}
    (hclean : ∀ part, ∀ entry ∈ entriesIn data part, Clean r part entry)
    (hok : load r data c = (.ok (), c')) :
    (∀ part, ∀ entry ∈ entriesIn data part, Accepted r part entry) ∧ Lockstep r c' ∧
      c'.view r = outcome r (c.view r) data := by
  obtain ⟨fields, c₁, hread, h₁⟩ := Action.bind_eq_ok hok
  obtain ⟨hfields, rfl⟩ := Action.lift_eq_ok hread
  obtain ⟨_, c₂, hparts, hnote⟩ := Action.bind_eq_ok h₁
  cases hnote
  have haccepted := Action.forM_all (P := Lockstep r)
    (Q := fun part => ∀ entry ∈ entriesIn data part, Accepted r part entry)
    (f := loadPart r fields) (l := Part.all) ?_ h hparts
  · obtain ⟨hlock, hv⟩ := Action.forM_fold (P := fun c v => Lockstep r c ∧ c.view r = v)
      (g := fun v part => (entriesIn data part).foldl (fun v entry => step r v part entry) v)
      (f := loadPart r fields) (l := Part.all) (fun part _ {c c' v} hv hpart => by
        obtain ⟨h, rfl⟩ := hv
        exact (loadPart_ok h hfields (hclean part) hpart).2) ⟨h, rfl⟩ hparts
    have houtcome : outcome r (c₁.view r) data = c₂.view r := by
      rw [hv, outcome, rows, List.foldl_flatMap]
      simp only [List.foldl_map]
    exact ⟨fun part => haccepted part part.mem_all,
      hlock.retouch (.note c₂ r _ (c₂.root r)), houtcome.symm⟩
  · intro part _ c c' h hpart
    obtain ⟨haccepted, hlock, -⟩ := loadPart_ok h hfields (hclean part) hpart
    exact ⟨hlock, haccepted⟩

end Manifest

end DocCatalog
