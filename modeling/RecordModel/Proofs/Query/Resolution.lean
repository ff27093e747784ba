import RecordModel.Proofs.Catalog.Names
import RecordModel.Proofs.Query.Alias
import RecordModel.Proofs.Query.Rows

/-!
# What a path is resolved to

A segment stands for the field of its name, or for the field that is stored in a column of this
name if no field bears it. `Leads c m segments hops f` says that segments, all but the last one
relations with a declared target, lead from `m` along `hops` to the field `f`. A path is resolved
exactly if it leads somewhere, and its joins are told by the hops alone: how a segment is spelled
does not matter.

Results:
* `walk_eq_ok`: a walk gives the tables of the hops that its segments lead along.
* `resolve_eq_ok`: the same for a path, whose segments must not be empty.
* `joined_tablesOf`: the joins of hops, one by one.
* `Leads.respell`: a relation may be named by its column instead.
* `resolve_exact`: when a path is resolved, to which joins, and which spellings give the same.
-/
namespace RecordModel

/-! ## Where segments lead -/

/-- What a segment stands for in a model: the field of this name, or else of this column. -/
def Model.Means (m : Model) (segment : String) (f : Field) : Prop :=
  f ∈ m.fields ∧ (f.name = segment ∨ f.column = segment ∧ ∀ g ∈ m.fields, g.name ≠ segment)

/-- Segments that lead from a model along hops to a field. -/
inductive Leads (c : Catalog) : Model → List String → List Hop → Field → Prop where
  | field {m : Model} {segment : String} {f : Field} : m.Means segment f → Leads c m [segment] [] f
  | hop {m target : Model} {segment : String} {rest : List String} {hops : List Hop} {f g : Field} :
    m.Means segment f → f.type = .relation target.name → target ∈ c.models →
      Leads c target rest hops g → Leads c m (segment :: rest) (⟨f, target⟩ :: hops) g

section Leads

variable {c : Catalog} {m target : Model} {segment : String} {segments : List String}
  {hops : List Hop} {f : Field}

theorem Model.WellFormed.getField_eq_ok (h : m.WellFormed) :
    m.getField segment = .ok f ↔ m.Means segment f := by
  rw [Model.getField_ok, h.field?_eq_some, Model.Means]

theorem Leads.follows (hc : c.WellFormed) (h : Leads c m segments hops f) :
    ∃ last, Follows c m hops last := by
  induction h with
  | field => exact ⟨_, .stay _⟩
  | hop hmeans htype htarget _ ih =>
    obtain ⟨last, hlast⟩ := ih
    have ht := hc.related_eq_ok.2 ⟨htype, htarget⟩
    exact ⟨last, .hop hmeans.1 (Catalog.isRelation_of_related ht) ht hlast⟩

theorem Leads.length_eq (h : Leads c m segments hops f) : segments.length = hops.length + 1 := by
  induction h with
  | field => rfl
  | hop _ _ _ _ ih => rw [List.length_cons, List.length_cons, ih]

/-- A relation may be named by its column instead, where no field has this as its name. -/
theorem Leads.respell (h : Leads c m segments hops f) {before behind : List Hop} {hop : Hop}
    (hhops : hops = before ++ hop :: behind) {last : Model} (hlast : Follows c m before last)
    (hplain : ∀ g ∈ last.fields, g.name ≠ hop.field.column) :
    Leads c m (segments.set before.length hop.field.column) hops f := by
  induction h generalizing before with
  | field => simp at hhops
  | @hop m target segment rest hops g f hmeans htype htarget hrest ih =>
    cases before with
    | nil =>
      cases hlast
      cases hhops
      exact .hop ⟨hmeans.1, .inr ⟨rfl, hplain⟩⟩ htype htarget hrest
    | cons first before =>
      obtain ⟨rfl, rfl⟩ := List.cons.inj hhops
      cases hlast with
      | hop _ _ _ hlast => exact .hop hmeans htype htarget (ih rfl hlast)

end Leads

/-! ## When a path is resolved -/

section Resolving

variable {c : Catalog} {root m : Model} {path : Path} {r : Resolution}

/-- What one walk does: it succeeds where its segments lead, behind the hops that are `done`. -/
theorem walk_eq_ok (hc : c.WellFormed) (hm : m ∈ c.models) {done : List Hop}
    {segments : List String} :
    walk c path m (tablesOf root done) segments = .ok r ↔
      ∃ hops f, Leads c m segments hops f ∧ r = ⟨tablesOf root (done ++ hops), f⟩ := by
  induction segments generalizing m done with
  | nil =>
    constructor
    · intro h; cases h
    · rintro ⟨hops, f, hleads, -⟩; cases hleads
  | cons segment rest ih =>
    have hmodel := hc.models m hm
    cases rest with
    | nil =>
      rw [walk, bind_eq_ok]
      constructor
      · rintro ⟨f, hf, hr⟩
        cases hr
        exact ⟨[], f, .field (hmodel.getField_eq_ok.1 hf), by rw [List.append_nil]⟩
      · rintro ⟨hops, f, hleads, rfl⟩
        cases hleads with
        | field hmeans => exact ⟨f, hmodel.getField_eq_ok.2 hmeans, by rw [List.append_nil]; rfl⟩
        | hop _ _ _ hrest => cases hrest
    | cons next rest =>
      constructor
      · intro h
        obtain ⟨f, target, hf, hr, ht⟩ := relation_of_walk h
        rw [walk_relation hf hr ht, ih (Catalog.related_mem ht)] at h
        obtain ⟨hops, g, hleads, rfl⟩ := h
        obtain ⟨htype, htarget⟩ := hc.related_eq_ok.1 ht
        exact ⟨⟨f, target⟩ :: hops, g, .hop (hmodel.getField_eq_ok.1 hf) htype htarget hleads,
          by rw [List.append_assoc, List.singleton_append]⟩
      · rintro ⟨hops, g, hleads, rfl⟩
        cases hleads with
        | @hop _ target _ _ hops f _ hmeans htype htarget hrest =>
          have ht := hc.related_eq_ok.2 ⟨htype, htarget⟩
          rw [walk_relation (hmodel.getField_eq_ok.2 hmeans) (Catalog.isRelation_of_related ht) ht,
            ih htarget]
          exact ⟨hops, g, hrest, by rw [List.append_assoc, List.singleton_append]⟩

theorem resolve_eq_ok (hc : c.WellFormed) (hroot : root ∈ c.models) :
    resolve c root path = .ok r ↔ "" ∉ path.segments ∧
      ∃ hops f, Leads c root path.segments hops f ∧ r = ⟨tablesOf root hops, f⟩ := by
  have hempty : path.segments.any String.isEmpty = true ↔ "" ∈ path.segments := by
    simp [List.any_eq_true]
  unfold resolve
  split
  · rename_i hnil
    constructor
    · intro h; cases h
    · rintro ⟨-, hops, f, hleads, -⟩
      rw [List.isEmpty_iff.1 hnil] at hleads
      cases hleads
  · split
    · rename_i hsome
      constructor
      · intro h; cases h
      · rintro ⟨hnone, -⟩
        exact absurd (hempty.1 hsome) hnone
    · rename_i hnone
      have hwalk : walk c path root (tablesOf root []) path.segments = .ok r ↔
          ∃ hops f, Leads c root path.segments hops f ∧ r = ⟨tablesOf root ([] ++ hops), f⟩ :=
        walk_eq_ok hc hroot
      exact hwalk.trans (and_iff_right (mt hempty.2 hnone)).symm

end Resolving

/-! ## The joins of hops -/

/-- The root table and the columns of hops, two underscores between them. -/
def chainAlias (root : Model) (hops : List Hop) : String :=
  "__".intercalate (root.table :: hops.map fun h => h.field.column)

/-- The join of a hop: the table of its target under the alias `own`, whose key is matched with
the hop's column in the table `previous`. -/
structure Hop.JoinedAs (h : Hop) (previous own : String) (j : Join) : Prop where
  table : j.table = h.target.table
  aliasName : j.aliasName = own
  link : j.link = some ⟨h.field.required, h.field.column, previous⟩
  text : j.text = (if h.field.required then "INNER JOIN " else "LEFT JOIN ") ++
    quoteName h.target.table ++ " AS " ++ quoteName own ++ " ON " ++ quoteName previous ++ "." ++
      h.field.column ++ " = " ++ quoteName own ++ ".id"

/-- The joins of hops: the root table without a link, then one join for each hop. -/
structure Joined (m : Model) (hops : List Hop) (joins : List Join) : Prop where
  length : joins.length = hops.length + 1
  root : joins[0]? = some ⟨m.table, m.table, none⟩
  hop : ∀ before h behind, hops = before ++ h :: behind → ∃ j,
    joins[before.length + 1]? = some j ∧
      h.JoinedAs (chainAlias m before) (chainAlias m (before ++ [h])) j

theorem chainAlias_eq (m : Model) (hops : List Hop) :
    chainAlias m hops = hopAlias m.table hops := by
  rw [← String.toList_inj, hopAlias_toList, chainAlias, String.toList_intercalate, columnsText]
  have hcolumns : ∀ (front : List Char) (hops : List Hop),
      "__".toList.intercalate (front :: (hops.map fun h => h.field.column).map String.toList) =
        front ++ hops.flatMap fun h => '_' :: '_' :: h.field.column.toList := by
    intro front hops
    induction hops generalizing front with
    | nil => simp
    | cons h hops ih =>
      rw [List.map_cons, List.map_cons, List.intercalate_cons_cons, ih]
      simp
  exact hcolumns _ _

theorem Hop.joinedAs_join (h : Hop) (previous : String) :
    h.JoinedAs previous (previous ++ Join.separator ++ h.field.column) (h.join previous) := by
  refine ⟨rfl, rfl, rfl, ?_⟩
  simp [Hop.join, Join.text, ColumnRef.text, idField, String.append_assoc]

theorem joined_tablesOf (m : Model) (hops : List Hop) : Joined m hops (tablesOf m hops) := by
  refine ⟨by simp [tablesOf], by simp [tablesOf, Join.root], ?_⟩
  rintro before h behind rfl
  refine ⟨h.join (hopAlias m.table before), ?_, ?_⟩
  · have htake : (before ++ h :: behind).take (before.length + 1) = before ++ [h] := by
      rw [List.append_cons, List.take_left' (by simp)]
    have hlength : before.length + 1 < (tablesOf m (before ++ h :: behind)).length := by
      simp [tablesOf]
    rw [List.getElem?_eq_some_iff]
    refine ⟨hlength, ?_⟩
    simp only [tablesOf, List.getElem_map, List.getElem_inits, htake, joinAt_snoc]
  · rw [chainAlias_eq, chainAlias_eq, hopAlias_snoc]
    exact h.joinedAs_join _

/-! ## Resolution as a whole -/

/-- A path is resolved exactly if its segments are not empty and lead to a field. Its joins are
then those of its hops, one for each segment, and any relation on the way may be named by its
column as well, unless a field of the same model has this as its name. -/
theorem resolve_exact {c : Catalog} (hc : c.Reachable) {root : Model} (hroot : root ∈ c.models)
    (path : Path) :
    ((∃ r, resolve c root path = .ok r) ↔
      path.segments ≠ [] ∧ "" ∉ path.segments ∧ ∃ hops f, Leads c root path.segments hops f) ∧
    ∀ r, resolve c root path = .ok r → ∃ hops, Leads c root path.segments hops r.field ∧
      r.joins.length = path.segments.length ∧ Joined root hops r.joins ∧
      ∀ before hop behind last, hops = before ++ hop :: behind → Follows c root before last →
        (∀ g ∈ last.fields, g.name ≠ hop.field.column) →
          ∃ r', resolve c root ⟨path.segments.set before.length hop.field.column⟩ = .ok r' ∧
            r'.joins = r.joins ∧ r'.column = r.column := by
  have hwf := hc.wellFormed
  refine ⟨⟨?_, ?_⟩, ?_⟩
  · rintro ⟨r, hr⟩
    obtain ⟨hnone, hops, f, hleads, -⟩ := (resolve_eq_ok hwf hroot).1 hr
    refine ⟨?_, hnone, hops, f, hleads⟩
    intro hnil
    rw [hnil] at hleads
    cases hleads
  · rintro ⟨-, hnone, hops, f, hleads⟩
    exact ⟨_, (resolve_eq_ok hwf hroot).2 ⟨hnone, hops, f, hleads, rfl⟩⟩
  · intro r hr
    obtain ⟨hnone, hops, f, hleads, rfl⟩ := (resolve_eq_ok hwf hroot).1 hr
    refine ⟨hops, hleads, ?_, joined_tablesOf root hops, ?_⟩
    · rw [(joined_tablesOf root hops).length, hleads.length_eq]
    intro before hop behind last hhops hlast hplain
    have hspelled := hleads.respell hhops hlast hplain
    refine ⟨_, (resolve_eq_ok hwf hroot).2 ⟨?_, hops, f, hspelled, rfl⟩, rfl, rfl⟩
    intro hempty
    rcases List.mem_or_eq_of_mem_set hempty with hold | hcolumn
    · exact hnone hold
    · -- a column is an identifier, so that the new segment is not empty either
      obtain ⟨_, hfollows⟩ := hleads.follows hwf
      obtain ⟨m, hm, hfield, -⟩ := hfollows.field_mem hroot (h := hop) (by simp [hhops])
      have hident := ((hwf.models m hm).identifiers _ hfield).2
      rw [← hcolumn] at hident
      cases hident

/-- The name of a ticket's team, behind an optional and a required relation. -/
def teamName : Path := ⟨["assignee", "team_id", "name"]⟩

/-- The assignee may be named by its column as well. -/
theorem teamName_resolved : helpDesk.catalog.Reachable ∧ ticket ∈ helpDesk.catalog.models ∧
    (∃ hops f, Leads helpDesk.catalog ticket teamName.segments hops f) ∧
    ∃ r r', resolve helpDesk.catalog ticket teamName = .ok r ∧
      resolve helpDesk.catalog ticket ⟨["assignee_id", "team_id", "name"]⟩ = .ok r' ∧
        r'.joins = r.joins ∧ r'.column = r.column := by
  have hm : ticket ∈ helpDesk.catalog.models := by simp [helpDesk]
  have hr : ∃ r, resolve helpDesk.catalog ticket teamName = .ok r ∧
      r.joins = [⟨"ticket", "ticket", none⟩,
        ⟨"member", "ticket__assignee_id", some ⟨false, "assignee_id", "ticket"⟩⟩,
        ⟨"team", "ticket__assignee_id__team_id",
          some ⟨true, "team_id", "ticket__assignee_id"⟩⟩] := ⟨_, rfl, rfl⟩
  obtain ⟨r, hr, htables⟩ := hr
  obtain ⟨hiff, hjoins⟩ := resolve_exact helpDesk_reachable hm teamName
  obtain ⟨-, -, hleads⟩ := hiff.1 ⟨r, hr⟩
  obtain ⟨hops, -, hlength, hjoined, hspell⟩ := hjoins r hr
  -- the column of the first hop is told by its join
  have htwo := hjoined.length.symm.trans hlength
  obtain ⟨hop, behind, rfl⟩ : ∃ hop behind, hops = hop :: behind :=
    List.exists_cons_of_ne_nil fun hnil => by rw [hnil] at htwo; cases htwo
  obtain ⟨j, hj, hjoin⟩ := hjoined.hop [] hop behind rfl
  rw [htables] at hj
  cases hj
  have hcolumn : hop.field.column = "assignee_id" := by
    have hlink := hjoin.link
    simp only [Option.some.injEq, JoinLink.mk.injEq] at hlink
    exact hlink.2.1.symm
  have hplain : ∀ g ∈ ticket.fields, g.name ≠ hop.field.column := by
    rw [hcolumn]
    decide
  obtain ⟨r', hr', hsame⟩ := hspell [] hop behind ticket rfl (.stay ticket) hplain
  rw [hcolumn] at hr'
  exact ⟨helpDesk_reachable, hm, hleads, r, r', hr, hr', hsame⟩

end RecordModel
