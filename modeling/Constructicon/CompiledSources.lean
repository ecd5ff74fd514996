import Constructicon.Validator

/-!
# What a compilation returns

The sources that a node offers are a dictionary with distinct keys, and they do not depend on the
hash of the graph that is admitted: the hash decides which executors may be unavailable, which is
recorded as a fault and never withholds a source.
-/

namespace Constructicon

variable {δ : Type}

/-! ## Distinct names -/

theorem bindOutputs_nodup {l : Level} {nodeSources inputSources : List Source} {ports : List (Port × ℕ)}
    {outputs o : Sources} (start : outputs.keys.Nodup)
    (h : (bindOutputs l nodeSources inputSources ports outputs : Compile δ _).result = .ok o) : o.keys.Nodup := by
  induction ports generalizing outputs with
  | nil =>
    cases h
    exact start
  | cons p ports ih =>
    obtain ⟨port, index⟩ := p
    rw [bindOutputs] at h
    obtain ⟨r, -, rest⟩ := Emit.result_bind_eq_ok h
    cases r with
    | none => exact ih start rest
    | some bound => exact ih (Dict.nodup_insert start _ _) rest

theorem compileGraphWith_nodup {rec : Seat → Compile δ Sources} {g : Graph} {l : Level} {o : Sources}
    (h : (compileGraphWith rec g l).result = .ok o) : o.keys.Nodup := by
  obtain ⟨_, -, h₁⟩ := Emit.result_bind_eq_ok h
  obtain ⟨_, -, h₂⟩ := Emit.result_bind_eq_ok h₁
  obtain ⟨_, -, h₃⟩ := Emit.result_bind_eq_ok h₂
  obtain ⟨_, -, h₄⟩ := Emit.result_bind_eq_ok h₃
  obtain ⟨_, -, h₅⟩ := Emit.result_bind_eq_ok h₄
  obtain ⟨_, -, h₆⟩ := Emit.result_bind_eq_ok h₅
  have start : (Dict.empty : Sources).keys.Nodup := List.nodup_nil
  exact bindOutputs_nodup start h₆

theorem compileBounded_nodup {w : World δ} {rec : Seat → Compile δ Sources} {a : Seat} {loop : Loop}
    {inputs outputs : List Port} {o : Sources} (h : (compileBounded w rec a loop inputs outputs).result = .ok o) :
    o.keys.Nodup := by
  obtain ⟨_, -, h₁⟩ := Emit.result_bind_eq_ok h
  obtain ⟨_, -, h₂⟩ := Emit.result_bind_eq_ok h₁
  obtain ⟨_, -, h₃⟩ := Emit.result_bind_eq_ok h₂
  obtain ⟨_, -, h₄⟩ := Emit.result_bind_eq_ok h₃
  obtain ⟨_, -, h₅⟩ := Emit.result_bind_eq_ok h₄
  obtain ⟨_, -, h₆⟩ := Emit.result_bind_eq_ok h₅
  obtain ⟨_, -, h₇⟩ := Emit.result_bind_eq_ok h₆
  obtain ⟨_, -, h₈⟩ := Emit.result_bind_eq_ok h₇
  obtain ⟨_, -, h₉⟩ := Emit.result_bind_eq_ok h₈
  obtain ⟨_, -, last⟩ := Emit.result_bind_eq_ok h₉
  cases last
  exact Dict.nodup_ofList _

theorem compileStored_nodup {w : World δ} {rec : Seat → Compile δ Sources} {a : Seat} {ref : Ref} {stored : StoredVersion}
    {o : Sources} (h : (compileStored w rec a ref stored).result = .ok o) : o.keys.Nodup := by
  obtain ⟨_, -, h₁⟩ := Emit.result_bind_eq_ok h
  obtain ⟨_, -, h₂⟩ := Emit.result_bind_eq_ok h₁
  obtain ⟨bound, -, h₃⟩ := Emit.result_bind_eq_ok h₂
  cases body : stored.definition.body with
  | graph g =>
    rw [body] at h₃
    dsimp only at h₃
    unfold compileComposite at h₃
    cases lie : boundaryLie w.hashing stored a.scope with
    | some f =>
      rw [lie] at h₃
      cases h₃
      exact List.nodup_nil
    | none =>
      rw [lie] at h₃
      exact compileGraphWith_nodup h₃
  | python p =>
    rw [body] at h₃
    obtain ⟨_, -, h₄⟩ := Emit.result_bind_eq_ok h₃
    obtain ⟨_, -, h₅⟩ := Emit.result_bind_eq_ok h₄
    obtain ⟨_, -, h₆⟩ := Emit.result_bind_eq_ok h₅
    obtain ⟨_, -, last⟩ := Emit.result_bind_eq_ok h₆
    cases last
    exact Dict.nodup_ofList _

theorem compileNode_nodup {w : World δ} {depth : ℕ} {a : Seat} {o : Sources}
    (h : (compileNode w depth a).result = .ok o) : o.keys.Nodup := by
  cases depth with
  | zero => cases h
  | succ depth =>
    rw [compileNode, compileNodeWith] at h
    cases body : a.node.body with
    | loop loop =>
      rw [body] at h
      dsimp only at h
      split_ifs at h with nested
      · cases h
        exact List.nodup_nil
      · obtain ⟨boundary, -, rest⟩ := Emit.result_bind_eq_ok h
        cases boundary with
        | none =>
          cases rest
          exact List.nodup_nil
        | some ports => exact compileBounded_nodup rest
    | ref ref =>
      rw [body] at h
      obtain ⟨stored, -, rest⟩ := Emit.result_bind_eq_ok h
      cases stored with
      | none =>
        cases rest
        exact List.nodup_nil
      | some stored => exact compileStored_nodup rest
    | graph g =>
      rw [body] at h
      obtain ⟨bound, -, rest⟩ := Emit.result_bind_eq_ok h
      exact compileGraphWith_nodup rest

/-! ## The hash of the graph -/

def World.rehash (w : World δ) (d : δ) : World δ := { w with sourceGraphHash := d }

section Rehash

variable {rec rec' : Seat → Compile δ Sources}

theorem compileNodes_rehash (same : ∀ a, (rec' a).result = (rec a).result) (g : Graph) (l : Level)
    (upstream : Dict String (List String)) (nodes : List GraphNode) (outputs : NodeLookup) :
    (compileNodes rec' g l upstream nodes outputs).result = (compileNodes rec g l upstream nodes outputs).result := by
  induction nodes generalizing outputs with
  | nil => rfl
  | cons node nodes ih =>
    rw [compileNodes, compileNodes]
    exact Emit.result_bind_congr (same _) fun o => ih _

theorem compileGraphWith_rehash (same : ∀ a, (rec' a).result = (rec a).result) (g : Graph) (l : Level) :
    (compileGraphWith rec' g l).result = (compileGraphWith rec g l).result := by
  unfold compileGraphWith
  apply Emit.result_bind_congr rfl
  intro _
  apply Emit.result_bind_congr rfl
  intro _
  apply Emit.result_bind_congr rfl
  intro _
  apply Emit.result_bind_congr rfl
  intro _
  apply Emit.result_bind_congr rfl
  intro ordered
  apply Emit.result_bind_congr (compileNodes_rehash same g l _ ordered _)
  exact fun _ => rfl

theorem compileBody_rehash (same : ∀ a, (rec' a).result = (rec a).result) (a : Seat) (loop : Loop)
    (bodyScope : ScopePath) (boundary : Sources) :
    (compileBody rec' a loop bodyScope boundary).result = (compileBody rec a loop bodyScope boundary).result := by
  unfold compileBody
  cases loop.body with
  | inl ref => exact same _
  | inr g => exact compileGraphWith_rehash same g _

theorem compileBounded_rehash (same : ∀ a, (rec' a).result = (rec a).result) (w : World δ) (d : δ) (a : Seat)
    (loop : Loop) (inputs outputs : List Port) :
    (compileBounded (w.rehash d) rec' a loop inputs outputs).result =
      (compileBounded w rec a loop inputs outputs).result := by
  unfold compileBounded
  dsimp only
  apply Emit.result_bind_congr rfl
  intro _
  apply Emit.result_bind_congr rfl
  intro _
  apply Emit.result_bind_congr rfl
  intro _
  apply Emit.result_bind_congr rfl
  intro _
  apply Emit.result_bind_congr rfl
  intro bound
  apply Emit.result_listen_congr (compileBody_rehash same a loop _ _)
  intro body log log'
  apply Emit.result_bind_congr
  · rfl
  intro _
  apply Emit.result_bind_congr rfl
  intro feedback
  apply Emit.result_bind_congr rfl
  intro continuation
  rfl

theorem compiledChannel_ok (w : World δ) (d : ComponentDef) (scope : ScopePath) (aliasName : String)
    (descriptor : CapabilityDescriptor) : ∃ r, (compiledChannel w d scope aliasName descriptor).result = .ok r := by
  unfold compiledChannel
  dsimp only
  repeat' split
  all_goals exact ⟨_, rfl⟩

theorem bindCapabilities_ok (w : World δ) (d : ComponentDef) (scope : ScopePath) (grants : EffectiveGrants)
    (aliases : List (String × String)) : (bindCapabilities w d scope grants aliases).result = .ok () := by
  induction aliases with
  | nil => rfl
  | cons p aliases ih =>
    obtain ⟨aliasName, capabilityId⟩ := p
    rw [bindCapabilities]
    cases w.assembly.catalog.get? capabilityId with
    | none => exact ih
    | some descriptor =>
      obtain ⟨channel, compiled⟩ := compiledChannel_ok w d scope aliasName descriptor
      dsimp only
      rw [Emit.result_bind_ok (a := ()) rfl, Emit.result_bind_ok compiled, Emit.result_bind_ok (a := ()) rfl]
      exact ih

theorem registerAtomic_rehash (w : World δ) (d : δ) (a : Seat) (component : ComponentDef) (bound : Sources) (ref : Ref)
    (grants : EffectiveGrants) : (registerAtomic (w.rehash d) a component bound ref grants).result =
      (registerAtomic w a component bound ref grants).result := by
  unfold registerAtomic
  apply Emit.result_bind_congr rfl
  intro _
  apply Emit.result_bind_congr rfl
  intro _
  apply Emit.result_bind_congr
  · rw [bindCapabilities_ok, bindCapabilities_ok]
  · exact fun _ => rfl

theorem compileStored_rehash (same : ∀ a, (rec' a).result = (rec a).result) (w : World δ) (d : δ) (a : Seat)
    (ref : Ref) (stored : StoredVersion) :
    (compileStored (w.rehash d) rec' a ref stored).result = (compileStored w rec a ref stored).result := by
  unfold compileStored
  apply Emit.result_bind_congr rfl
  intro grants
  apply Emit.result_bind_congr rfl
  intro _
  apply Emit.result_bind_congr rfl
  intro bound
  cases stored.definition.body with
  | graph g =>
    change (compileComposite (w.rehash d) rec' a stored g bound grants).result =
      (compileComposite w rec a stored g bound grants).result
    have lies : boundaryLie (w.rehash d).hashing stored a.scope = boundaryLie w.hashing stored a.scope := rfl
    unfold compileComposite
    rw [lies]
    cases boundaryLie w.hashing stored a.scope with
    | some f => rfl
    | none => exact compileGraphWith_rehash same g _
  | python p => exact registerAtomic_rehash w d a _ bound ref grants

theorem compileNode_rehash (w : World δ) (d : δ) (depth : ℕ) (a : Seat) :
    (compileNode (w.rehash d) depth a).result = (compileNode w depth a).result := by
  induction depth generalizing a with
  | zero => rfl
  | succ depth ih =>
    rw [compileNode, compileNode, compileNodeWith, compileNodeWith]
    cases a.node.body with
    | loop loop =>
      dsimp only
      split_ifs with nested
      · rfl
      · apply Emit.result_bind_congr rfl
        intro boundary
        cases boundary with
        | none => rfl
        | some ports => exact compileBounded_rehash ih w d a loop _ _
    | ref ref =>
      apply Emit.result_bind_congr rfl
      intro stored
      cases stored with
      | none => rfl
      | some stored => exact compileStored_rehash ih w d a ref stored
    | graph g =>
      apply Emit.result_bind_congr rfl
      intro bound
      exact compileGraphWith_rehash ih g _

end Rehash

end Constructicon
