import Constructicon.Library.Dict
import Mathlib.Data.List.Sort

/-!
# Tables of rows, and changes that keep them

A store is its tables by name, their indexes and two numbers of its header. Statements
create tables, add columns, insert rows and update cells; nothing here drops a table, a
column or a row. `Keeps spares s t` says that `t` still has every table, column and row of
`s` in its place, with every cell as it was or changed only as `spares` lets it.
-/

namespace Relational

/-- A cell; what no statement looks into is `other`. -/
inductive Cell where
  | null
  | int (n : ℤ)
  | text (s : String)
  | other (bytes : List ℕ)
deriving DecidableEq

abbrev Row := Dict String Cell

/-- Cells in the order of the database: by type, then by value. -/
def Cell.le : Cell → Cell → Bool
  | .null, _ => true
  | .int _, .null => false
  | .int a, .int b => a ≤ b
  | .int _, _ => true
  | .text _, .null => false
  | .text _, .int _ => false
  | .text a, .text b => a ≤ b
  | .text _, .other _ => true
  | .other a, .other b => a ≤ b
  | .other _, _ => false

/-- `ORDER BY column` -/
def orderBy (column : String) (rows : List Row) : List Row :=
  rows.insertionSort (fun r r' => Cell.le ((r.get? column).getD .null) ((r'.get? column).getD .null) = true)

structure Table where
  columns : List String
  rows : List Row
deriving DecidableEq

structure Index where
  table : String
  columns : List String
  unique : Bool
  whereClause : Option String
deriving DecidableEq

structure Store where
  tables : Dict String Table
  indexes : Dict String Index
  user_version : ℤ
  wal : Bool
deriving DecidableEq

def Store.empty : Store := ⟨.empty, .empty, 0, false⟩

namespace Store

def hasTable (s : Store) (name : String) : Bool := s.tables.contains name

def columns (s : Store) (name : String) : List String :=
  (s.tables.get? name).elim [] Table.columns

def rows? (s : Store) (name : String) : Option (List Row) := (s.tables.get? name).map Table.rows

/-- Apply `f` to a table that is there. -/
def onTable (s : Store) (name : String) (f : Table → Table) : Store :=
  (s.tables.get? name).elim s (fun t => { s with tables := s.tables.insert name (f t) })

/-- `CREATE TABLE IF NOT EXISTS` -/
def createTable (name : String) (columns : List String) (s : Store) : Store :=
  if s.hasTable name then s else { s with tables := s.tables.insert name ⟨columns, []⟩ }

/-- `ALTER TABLE ADD COLUMN` -/
def addColumn (name column : String) (default : Cell) (s : Store) : Store :=
  s.onTable name (fun t =>
    if column ∈ t.columns then t
    else ⟨t.columns ++ [column], t.rows.map (fun r => r.insert column default)⟩)

def insert (name : String) (row : Row) (s : Store) : Store :=
  s.onTable name (fun t => { t with rows := t.rows ++ [row] })

/-- `UPDATE`: the cells `assign` gives in the rows `choose` chooses. -/
def update (name : String) (choose : Row → Bool) (assign : List (String × Cell)) (s : Store) : Store :=
  s.onTable name (fun t =>
    { t with rows := t.rows.map (fun r => if choose r then assign.foldl (fun r p => r.insert p.1 p.2) r else r) })

def createIndex (name : String) (index : Index) (s : Store) : Store :=
  { s with indexes := s.indexes.insert name index }

def setVersion (version : ℤ) (s : Store) : Store := { s with user_version := version }

def setWal (s : Store) : Store := { s with wal := true }

@[simp] theorem user_version_onTable (s : Store) (name : String) (f : Table → Table) :
    (s.onTable name f).user_version = s.user_version := by
  unfold onTable
  cases s.tables.get? name <;> rfl

@[simp] theorem user_version_createTable (name : String) (columns : List String) (s : Store) :
    (s.createTable name columns).user_version = s.user_version := by
  unfold createTable
  split_ifs <;> rfl

@[simp] theorem user_version_addColumn (name column : String) (default : Cell) (s : Store) :
    (s.addColumn name column default).user_version = s.user_version := user_version_onTable s name _

@[simp] theorem user_version_insert (name : String) (row : Row) (s : Store) :
    (s.insert name row).user_version = s.user_version := user_version_onTable s name _

@[simp] theorem user_version_update (name : String) (choose : Row → Bool) (assign : List (String × Cell)) (s : Store) :
    (s.update name choose assign).user_version = s.user_version := user_version_onTable s name _

@[simp] theorem user_version_createIndex (name : String) (index : Index) (s : Store) :
    (s.createIndex name index).user_version = s.user_version := rfl

@[simp] theorem user_version_setVersion (version : ℤ) (s : Store) : (s.setVersion version).user_version = version := rfl

@[simp] theorem user_version_setWal (s : Store) : s.setWal.user_version = s.user_version := rfl

end Store

/-! ## What a change keeps -/

/-- How a cell may change: the table, the column, the cell before and after. -/
abbrev Spares := String → String → Option Cell → Option Cell → Prop

/-- The rows of a table are still there, in their places, with their cells. -/
def KeepsRow (spares : Spares) (name : String) (columns : List String) (r r' : Row) : Prop :=
  ∀ c ∈ columns, r'.get? c = r.get? c ∨ spares name c (r.get? c) (r'.get? c)

structure KeepsTable (spares : Spares) (name : String) (t t' : Table) : Prop where
  columns : ∀ c ∈ t.columns, c ∈ t'.columns
  rows : ∃ kept added, t'.rows = kept ++ added ∧ List.Forall₂ (KeepsRow spares name t.columns) t.rows kept

def Keeps (spares : Spares) (s s' : Store) : Prop :=
  ∀ name t, s.tables.get? name = some t → ∃ t', s'.tables.get? name = some t' ∧ KeepsTable spares name t t'

variable {spares : Spares}

theorem KeepsTable.refl (name : String) (t : Table) : KeepsTable spares name t t :=
  ⟨fun _ h => h, t.rows, [], by simp, List.forall₂_same.mpr (fun _ _ _ _ => .inl rfl)⟩

theorem Keeps.refl (s : Store) : Keeps spares s s := fun name t h => ⟨t, h, .refl name t⟩

def Composes (spares : Spares) : Prop :=
  ∀ name c x y z, spares name c x y → spares name c y z → spares name c x z

theorem Keeps.hasTable {s t : Store} (h : Keeps spares s t) {name : String} (has : s.hasTable name = true) :
    t.hasTable name = true := by
  obtain ⟨x, hx⟩ := Option.isSome_iff_exists.mp has
  obtain ⟨y, hy, -⟩ := h name x hx
  exact Option.isSome_iff_exists.mpr ⟨y, hy⟩

def Store.headCell (s : Store) (name column : String) : Option Cell :=
  (s.rows? name).bind (fun rows => rows.head?.bind (fun r => r.get? column))

theorem Keeps.headCell {s t : Store} (h : Keeps spares s t) {name column : String} (has : column ∈ s.columns name)
    {v : Cell} (found : s.headCell name column = some v) :
    t.headCell name column = some v ∨ ∃ x y, spares name column x y := by
  unfold Store.columns at has
  cases hx : s.tables.get? name with
  | none => simp [hx] at has
  | some x =>
    rw [hx] at has
    obtain ⟨y, hy, -, kept, added, rows, pairs⟩ := h name x hx
    simp only [Store.headCell, Store.rows?, hx, hy, Option.map_some, Option.bind_some] at found ⊢
    rw [rows]
    cases first : x.rows with
    | nil => simp [first] at found
    | cons r rest =>
      rw [first] at found pairs
      obtain ⟨r', rest', same, -, rfl⟩ := List.forall₂_cons_left_iff.mp pairs
      rcases same column has with same | changed
      · exact .inl (same.trans found)
      · exact .inr ⟨_, _, changed⟩

theorem keeps_of_tables {s t : Store} (same : t.tables = s.tables) : Keeps spares s t := by
  intro name x hx
  exact ⟨x, by rw [same]; exact hx, .refl name x⟩

theorem Keeps.sameTables {s t u : Store} (h : Keeps spares s t) (same : u.tables = t.tables) : Keeps spares s u := by
  intro name x hx
  rw [same]
  exact h name x hx

/-- A change of one table, seen from a store `s` that has come to `t`. -/
theorem Keeps.onTable {s t : Store} (h : Keeps spares s t) (name : String) (f : Table → Table)
    (keeps : ∀ x y, s.tables.get? name = some x → t.tables.get? name = some y →
      KeepsTable spares name x y → KeepsTable spares name x (f y)) :
    Keeps spares s (t.onTable name f) := by
  unfold Store.onTable
  cases ht : t.tables.get? name with
  | none => exact h
  | some y =>
    intro name' x hx
    obtain ⟨y', hy', keeps'⟩ := h name' x hx
    by_cases hn : name = name'
    · subst hn
      cases ht.symm.trans hy'
      exact ⟨f y, Dict.get?_insert_self _ _ _, keeps x y hx ht keeps'⟩
    · exact ⟨y', (Dict.get?_insert_ne _ _ hn).trans hy', keeps'⟩

theorem Keeps.createTable {s t : Store} (h : Keeps spares s t) (name : String) (columns : List String) :
    Keeps spares s (t.createTable name columns) := by
  unfold Store.createTable
  by_cases has : t.hasTable name = true
  · rw [if_pos has]
    exact h
  · rw [if_neg has]
    intro name' x hx
    obtain ⟨y, hy, keeps⟩ := h name' x hx
    have other : name ≠ name' := by
      rintro rfl
      exact has (Option.isSome_iff_exists.mpr ⟨y, hy⟩)
    exact ⟨y, (Dict.get?_insert_ne _ _ other).trans hy, keeps⟩

theorem Keeps.insert {s t : Store} (h : Keeps spares s t) (name : String) (row : Row) :
    Keeps spares s (t.insert name row) := by
  apply h.onTable
  intro x y _ _ keeps
  obtain ⟨kept, added, rows, same⟩ := keeps.rows
  exact ⟨keeps.columns, kept, added ++ [row], by simp [rows], same⟩

theorem KeepsTable.mapRows {name : String} {x y : Table} (keeps : KeepsTable spares name x y) (columns : List String)
    (more : ∀ c ∈ y.columns, c ∈ columns) (f : Row → Row)
    (same : ∀ r r', KeepsRow spares name x.columns r r' → KeepsRow spares name x.columns r (f r')) :
    KeepsTable spares name x ⟨columns, y.rows.map f⟩ := by
  obtain ⟨kept, added, rows, pairs⟩ := keeps.rows
  refine ⟨fun c hc => more c (keeps.columns c hc), kept.map f, added.map f, by simp [rows], ?_⟩
  rw [List.forall₂_map_right_iff]
  exact pairs.imp same

theorem Keeps.addColumn {s t : Store} (h : Keeps spares s t) (name column : String) (default : Cell) :
    Keeps spares s (t.addColumn name column default) := by
  apply h.onTable
  intro x y _ _ keeps
  by_cases has : column ∈ y.columns
  · rw [if_pos has]
    exact keeps
  · rw [if_neg has]
    apply keeps.mapRows _ (fun c hc => List.mem_append_left _ hc)
    intro r r' hr c hc
    have other : column ≠ c := by
      rintro rfl
      exact has (keeps.columns _ hc)
    rw [Dict.get?_insert_ne _ _ other]
    exact hr c hc

/-- An update of one column, which the store `s` lacks or whose change is spared. -/
theorem Keeps.update {s t : Store} (composes : Composes spares) (h : Keeps spares s t) (name : String)
    (choose : Row → Bool) (column : String) (v : Cell)
    (spared : (∀ r, choose r = true → spares name column (r.get? column) (some v)) ∨
      ∀ x, s.tables.get? name = some x → column ∉ x.columns) :
    Keeps spares s (t.update name choose [(column, v)]) := by
  apply h.onTable
  intro x y hx _ keeps
  apply keeps.mapRows _ (fun c hc => hc)
  intro r r' hr c hc
  by_cases chosen : choose r' = true
  · rw [if_pos chosen]
    change (r'.insert column v).get? c = _ ∨ spares name c _ ((r'.insert column v).get? c)
    by_cases hcol : column = c
    · subst hcol
      rw [Dict.get?_insert_self]
      rcases spared with spared | lacks
      · have change := spared r' chosen
        rcases hr column hc with same | before
        · rw [← same]
          exact .inr change
        · exact .inr (composes _ _ _ _ _ before change)
      · exact absurd hc (lacks x hx)
    · rw [Dict.get?_insert_ne _ _ hcol]
      exact hr c hc
  · rw [if_neg chosen]
    exact hr c hc

theorem Keeps.updateFreely {s t : Store} (h : Keeps spares s t) {name : String} (free : ∀ c x y, spares name c x y)
    (choose : Row → Bool) (assign : List (String × Cell)) : Keeps spares s (t.update name choose assign) := by
  apply h.onTable
  intro x y _ _ keeps
  apply keeps.mapRows _ (fun c hc => hc)
  intro r r' _ c _
  exact .inr (free _ _ _)

end Relational
