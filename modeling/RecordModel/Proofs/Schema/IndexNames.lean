import RecordModel.Proofs.Catalog.Reachable
import RecordModel.Schema.Definition

/-!
# Index names

The indexes of all tables share one namespace, and the name of an index is its table and its
column with an underscore between them. Both may hold underscores themselves, so the name does
not tell where the table ends: a table that reads `sale` and a column that reads `line_name` have
the index name of the table `sale_line` and the column `name`.

Results:
* `indexName_eq_iff`: two index names are equal exactly if the tables and columns are, or one
  table goes on where the other one ends.
* `indexNames_distinct_iff`: the indexes of a catalog have different names exactly if no two of
  them overlap so.
-/
namespace RecordModel

/-- The table of `n` is that of `m` followed by an underscore and more, and the column of `f` is
this more followed by an underscore and the column of `g`. -/
def Overlap (m : Model) (f : Field) (n : Model) (g : Field) : Prop :=
  ∃ shared, n.table.toList = m.table.toList ++ '_' :: shared ∧
    f.column.toList = shared ++ '_' :: g.column.toList

instance (m : Model) (f : Field) (n : Model) (g : Field) : Decidable (Overlap m f n g) :=
  decidable_of_iff
    (n.table.toList = m.table.toList ++ '_' :: n.table.toList.drop (m.table.toList.length + 1) ∧
      f.column.toList =
        n.table.toList.drop (m.table.toList.length + 1) ++ '_' :: g.column.toList)
    ⟨fun h => ⟨_, h⟩, by
      rintro ⟨shared, ht, hc⟩
      have hdrop : n.table.toList.drop (m.table.toList.length + 1) = shared := by
        rw [ht, List.drop_append]
        simp
      rw [hdrop]
      exact ⟨ht, hc⟩⟩

theorem indexName_toList (m : Model) (f : Field) :
    (indexName m f).toList = (m.table.toList ++ '_' :: f.column.toList) ++ "_index".toList := by
  simp [indexName]

/-- Where two texts are put together with a separator, one goes on where the other one ends. -/
theorem append_cons_eq_iff {α : Type} {a b c d : List α} {s : α} :
    a ++ s :: b = c ++ s :: d ↔
      a = c ∧ b = d ∨ (∃ x, c = a ++ s :: x ∧ b = x ++ s :: d) ∨
        ∃ x, a = c ++ s :: x ∧ d = x ++ s :: b := by
  constructor
  · intro h
    rcases List.append_eq_append_iff.1 h with ⟨x, hc, hb⟩ | ⟨x, ha, hd⟩
    · cases x with
      | nil => exact .inl ⟨by simpa using hc.symm, (List.cons.inj hb).2⟩
      | cons y x =>
        obtain ⟨rfl, rfl⟩ := List.cons.inj hb
        exact .inr (.inl ⟨x, hc, rfl⟩)
    · cases x with
      | nil => exact .inl ⟨by simpa using ha, (List.cons.inj hd).2.symm⟩
      | cons y x =>
        obtain ⟨rfl, rfl⟩ := List.cons.inj hd
        exact .inr (.inr ⟨x, ha, rfl⟩)
  · rintro (⟨rfl, rfl⟩ | ⟨x, rfl, rfl⟩ | ⟨x, rfl, rfl⟩) <;> simp

theorem indexName_eq_iff {m n : Model} {f g : Field} :
    indexName m f = indexName n g ↔
      m.table = n.table ∧ f.column = g.column ∨ Overlap m f n g ∨ Overlap n g m f := by
  rw [← String.toList_inj, indexName_toList, indexName_toList, List.append_cancel_right_eq,
    append_cons_eq_iff, String.toList_inj, String.toList_inj]
  rfl

theorem Overlap.table_ne {m n : Model} {f g : Field} (h : Overlap m f n g) : m.table ≠ n.table := by
  obtain ⟨shared, ht, -⟩ := h
  intro he
  rw [he] at ht
  simpa using congrArg List.length ht

namespace Catalog

/-- The field of a model has an index. -/
structure Indexed (c : Catalog) (m : Model) (f : Field) : Prop where
  model : m ∈ c.models
  field : f ∈ m.fields
  index : f.index = true

/-- The indexes of a catalog have different names exactly if nowhere the table of one is that of
another one, an underscore and a text which, with an underscore, the other column starts with. -/
theorem indexNames_distinct_iff {c : Catalog} (hc : c.Reachable) :
    (∀ m f n g, c.Indexed m f → c.Indexed n g → indexName m f = indexName n g →
      m = n ∧ f = g) ↔
    ∀ m f n g, c.Indexed m f → c.Indexed n g → ¬ Overlap m f n g := by
  constructor
  · intro hdistinct m f n g hf hg hover
    obtain ⟨rfl, -⟩ := hdistinct m f n g hf hg (indexName_eq_iff.2 (.inr (.inl hover)))
    exact hover.table_ne rfl
  · intro hover m f n g hf hg hname
    rcases indexName_eq_iff.1 hname with ⟨htable, hcolumn⟩ | h | h
    · have hwf := hc.wellFormed
      have hmodel : m = n := List.inj_on_of_nodup_map hwf.tables_nodup hf.model hg.model htable
      subst hmodel
      have hcolumns := (hwf.models m hf.model).columns_nodup
      exact ⟨rfl, List.inj_on_of_nodup_map hcolumns hf.field hg.field hcolumn⟩
    · exact absurd h (hover m f n g hf hg)
    · exact absurd h (hover n g m f hg hf)

/-- A text with an index. -/
def indexedText (name : String) : Field := { Field.scalar name .text with index := true }

def sale (field : String) : Model := (Model.new "Sale").withField (indexedText field)

def saleLine (field : String) : Model := (Model.new "SaleLine").withField (indexedText field)

/-- Sales and their lines, with an index on the given field of each. -/
def shop (saleField lineField : String) : Catalog := ⟨[sale saleField, saleLine lineField]⟩

/-- The table of the lines goes on where that of the sales ends, but the columns do not. -/
theorem shop_indexNames : (shop "number" "line_number").Reachable ∧
    ∀ m f n g, (shop "number" "line_number").Indexed m f →
      (shop "number" "line_number").Indexed n g → indexName m f = indexName n g →
        m = n ∧ f = g := by
  have hreachable : (shop "number" "line_number").Reachable :=
    .declare (.declare .empty (m := sale "number") rfl) (m := saleLine "line_number") rfl
  have hover : ∀ m ∈ (shop "number" "line_number").models, ∀ f ∈ m.fields, f.index = true →
      ∀ n ∈ (shop "number" "line_number").models, ∀ g ∈ n.fields, g.index = true →
        ¬ Overlap m f n g := by decide +kernel
  refine ⟨hreachable, (indexNames_distinct_iff hreachable).2 ?_⟩
  intro m f n g hf hg
  exact hover m hf.model f hf.field hf.index n hg.model g hg.field hg.index

/-- Both the field `line_name` of a sale and the field `name` of a line get the index
`sale_line_name_index`. -/
theorem shop_indexNames_clash : (shop "line_name" "name").Reachable ∧
    ¬ ∀ m f n g, (shop "line_name" "name").Indexed m f → (shop "line_name" "name").Indexed n g →
      indexName m f = indexName n g → m = n ∧ f = g := by
  have hreachable : (shop "line_name" "name").Reachable :=
    .declare (.declare .empty (m := sale "line_name") rfl) (m := saleLine "name") rfl
  have hsale : (shop "line_name" "name").Indexed (sale "line_name") (indexedText "line_name") :=
    ⟨by simp [shop], List.mem_cons_of_mem _ (List.mem_singleton.2 rfl), rfl⟩
  have hline : (shop "line_name" "name").Indexed (saleLine "name") (indexedText "name") :=
    ⟨by simp [shop], List.mem_cons_of_mem _ (List.mem_singleton.2 rfl), rfl⟩
  refine ⟨hreachable, fun hdistinct => ?_⟩
  obtain ⟨hmodel, -⟩ := hdistinct _ _ _ _ hsale hline (by decide)
  exact absurd (congrArg Model.table hmodel) (by decide)

end Catalog

end RecordModel
