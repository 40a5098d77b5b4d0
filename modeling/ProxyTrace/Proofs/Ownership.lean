import ProxyTrace.Proofs.Relabeling
import ProxyTrace.Workspace

/-!
# Owners of proxies

A proxy is foreign to a trace that does not own it. `Value.ownedBy` gives every proxy in a value,
at any depth, one owner; it is a relabeling, and one that keeps known values.
`Workspace.checkOwners` accepts exactly the values that are no foreign proxy themselves
(`checkOwners_eq_ok_iff`) and names a foreign one otherwise (`checkOwners_eq_error`): it does not
look into tuples.
-/

namespace ProxyTrace

/-- The same tensor in the hands of another trace. -/
def TensorProxy.ownedBy (id : TraceId) (t : TensorProxy) : TensorProxy :=
  { t with symbol.owner := id }

/-- One owner for all proxies. -/
def Relabeling.toOwner (id : TraceId) : Relabeling := ⟨fun _ => id, NumberProxy.value⟩

namespace Proxy

/-- The same proxy in the hands of another trace. -/
def ownedBy (id : TraceId) : Proxy → Proxy
  | untyped s => untyped { s with owner := id }
  | number p => number { p with symbol.owner := id }
  | tensor t => tensor (t.ownedBy id)

theorem ownedBy_eq_relabel (id : TraceId) (p : Proxy) : p.ownedBy id = p.relabel (.toOwner id) := by
  cases p <;> rfl

@[simp] theorem owner_ownedBy (id : TraceId) (p : Proxy) : (p.ownedBy id).owner = id := by
  rw [ownedBy_eq_relabel, owner_relabel, Relabeling.toOwner]

end Proxy

namespace Value

mutual

/-- The proxies in a value, at any depth. -/
def proxies : Value → List Proxy
  | proxy p => [p]
  | tuple items => itemProxies items
  | _ => []

def itemProxies : List Value → List Proxy
  | [] => []
  | v :: vs => v.proxies ++ itemProxies vs

end

mutual

/-- The value with all of its proxies, at any depth, in the hands of one trace. -/
def ownedBy (id : TraceId) : Value → Value
  | proxy p => proxy (p.ownedBy id)
  | tuple items => tuple (itemsOwnedBy id items)
  | v => v

def itemsOwnedBy (id : TraceId) : List Value → List Value
  | [] => []
  | v :: vs => v.ownedBy id :: itemsOwnedBy id vs

end

variable {id : TraceId}

theorem eq_of_proxy? {v : Value} {p : Proxy} (h : v.proxy? = some p) : v = proxy p := by
  unfold proxy? at h
  split at h <;> cases h
  rfl

theorem eq_of_numberProxy? {v : Value} {p : NumberProxy} (h : v.numberProxy? = some p) : v = p := by
  unfold numberProxy? at h
  split at h <;> cases h
  rfl

theorem eq_of_tensorProxy? {v : Value} {t : TensorProxy} (h : v.tensorProxy? = some t) : v = t := by
  unfold tensorProxy? at h
  split at h <;> cases h
  rfl

theorem itemProxies_eq_flatMap (vs : List Value) : itemProxies vs = vs.flatMap proxies := by
  induction vs with
  | nil => rfl
  | cons v vs ih => rw [itemProxies, ih, List.flatMap_cons]

/-- Among the proxies in values are the values that are proxies themselves. -/
theorem mem_itemProxies_of_mem_filterMap {p : Proxy} {vs : List Value}
    (hp : p ∈ vs.filterMap proxy?) : p ∈ itemProxies vs := by
  obtain ⟨v, hv, hvp⟩ := List.mem_filterMap.1 hp
  obtain rfl := eq_of_proxy? hvp
  induction vs with
  | nil => cases hv
  | cons w vs ih =>
    rcases List.mem_cons.1 hv with rfl | hv
    · exact List.mem_append_left _ (.head _)
    · exact List.mem_append_right _ (ih (List.mem_filterMap.2 ⟨_, hv, hvp⟩) hv)

theorem itemsOwnedBy_eq_map (vs : List Value) : itemsOwnedBy id vs = vs.map (ownedBy id) := by
  induction vs with
  | nil => rfl
  | cons v vs ih => rw [itemsOwnedBy, ih, List.map_cons]

mutual

theorem ownedBy_eq_relabel : ∀ v : Value, v.ownedBy id = v.relabel (.toOwner id)
  | none | number _ | tensor _ | slice _ => rfl
  | proxy p => by rw [ownedBy, relabel, Proxy.ownedBy_eq_relabel]
  | tuple items => by rw [ownedBy, relabel, itemsOwnedBy_eq_relabelItems items]

theorem itemsOwnedBy_eq_relabelItems :
    ∀ vs : List Value, itemsOwnedBy id vs = relabelItems (.toOwner id) vs
  | [] => rfl
  | v :: vs => by
    rw [itemsOwnedBy, relabelItems, ownedBy_eq_relabel v, itemsOwnedBy_eq_relabelItems vs]

end

theorem map_ownedBy (vs : List Value) : vs.map (ownedBy id) = vs.map (relabel (.toOwner id)) :=
  List.map_congr_left fun v _ => v.ownedBy_eq_relabel

@[simp] theorem invalid_ownedBy {α : Type} (op : String) (v : Value) :
    ((v.ownedBy id).invalid op : Except Error α) = v.invalid op := by
  rw [ownedBy_eq_relabel, invalid_relabel]

@[simp] theorem known_ownedBy (op : String) (v : Value) :
    (v.ownedBy id).known op = v.known op := by
  cases hv : v.numberProxy? with
  | none => rw [ownedBy_eq_relabel, known_relabel op hv]
  | some p =>
    rw [eq_of_numberProxy? hv]
    rfl

@[simp] theorem knownInt_ownedBy (op : String) (v : Value) :
    (v.ownedBy id).knownInt op = v.knownInt op := by
  simp only [knownInt, known_ownedBy, invalid_ownedBy]

@[simp] theorem proxy?_ownedBy (v : Value) :
    (v.ownedBy id).proxy? = v.proxy?.map (Proxy.ownedBy id) := by
  cases v <;> rfl

end Value

namespace Workspace

variable {w : Workspace} {t : Trace}

theorem checkOwner_symbol (ht : w.active? = some t) (p : Proxy) :
    w.checkOwner p.symbol =
      if p.owner = t.id then .ok () else .error (.staleProxy p.name p.owner t.id) := by
  rw [checkOwner, ht]
  by_cases h : p.owner = t.id
  · rw [if_pos h]
    exact if_pos h.symm
  · rw [if_neg h]
    exact if_neg (Ne.symm h)

theorem checkOwners_cons_proxy (p : Proxy) (vs : List Value) :
    w.checkOwners (.proxy p :: vs) = (w.checkOwner p.symbol >>= fun _ => w.checkOwners vs) := rfl

/-- With a trace active, the check fails at the first foreign proxy among the values. -/
theorem checkOwners_eq (ht : w.active? = some t) (vs : List Value) :
    w.checkOwners vs = match (vs.filterMap Value.proxy?).find? (·.owner ≠ t.id) with
      | some p => .error (.staleProxy p.name p.owner t.id)
      | none => .ok () := by
  rw [checkOwners]
  induction vs.filterMap Value.proxy? with
  | nil => rfl
  | cons p ps ih =>
    change (w.checkOwner p.symbol >>= fun _ => ps.forM fun p => w.checkOwner p.symbol) = _
    rw [checkOwner_symbol ht]
    by_cases h : p.owner = t.id
    · rw [if_pos h, List.find?_cons_of_neg (by simp [h])]
      exact ih
    · rw [if_neg h, List.find?_cons_of_pos (by simp [h])]
      rfl

theorem checkOwners_eq_error (ht : w.active? = some t) {vs : List Value} {e : Error}
    (h : w.checkOwners vs = .error e) :
    ∃ p ∈ vs.filterMap Value.proxy?, p.owner ≠ t.id ∧ e = .staleProxy p.name p.owner t.id := by
  rw [checkOwners_eq ht] at h
  split at h
  · rename_i p hfind
    cases h
    exact ⟨p, List.mem_of_find?_eq_some hfind, by simpa using List.find?_some hfind, rfl⟩
  · cases h

theorem checkOwners_eq_ok_iff (ht : w.active? = some t) {vs : List Value} :
    w.checkOwners vs = .ok () ↔ ∀ p ∈ vs.filterMap Value.proxy?, p.owner = t.id := by
  rw [checkOwners_eq ht]
  split
  · rename_i p hfind
    have hne : p.owner ≠ t.id := by simpa using List.find?_some hfind
    exact ⟨nofun, fun h => absurd (h p (List.mem_of_find?_eq_some hfind)) hne⟩
  · rename_i hfind
    exact ⟨fun _ p hp => by simpa using List.find?_eq_none.1 hfind p hp, fun _ => rfl⟩

theorem checkOwners_ownedBy (ht : w.active? = some t) (vs : List Value) :
    w.checkOwners (vs.map (Value.ownedBy t.id)) = .ok () := by
  refine (checkOwners_eq_ok_iff ht).2 ?_
  intro p hp
  rw [List.filterMap_map] at hp
  obtain ⟨v, -, hv⟩ := List.mem_filterMap.1 hp
  rw [Function.comp_apply, Value.proxy?_ownedBy] at hv
  obtain ⟨q, -, rfl⟩ := Option.map_eq_some_iff.1 hv
  exact q.owner_ownedBy t.id

end Workspace

end ProxyTrace
