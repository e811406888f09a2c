import NixiSbc.OrderedMaps
import Mathlib.Logic.Function.Basic

namespace NixiSbc.ObjectTrees

open OrderedMaps

/-- A value that is an object of values or not. -/
inductive Tree (K V : Type)
  | leaf (v : V)
  | object (fields : List (K × Tree K V))

section

variable {K V σ P : Type}

mutual

/-- The values that are no objects, each under the path that it is reached by. -/
def leaves (join : P → K → P) (path : P) : Tree K V → List (P × V)
  | .leaf v => [(path, v)]
  | .object fields => leavesOf join path fields

def leavesOf (join : P → K → P) (path : P) : List (K × Tree K V) → List (P × V)
  | [] => []
  | (k, t) :: rest => leaves join (join path k) t ++ leavesOf join path rest

end

mutual

/-- The tree with a tree in each of its open places. -/
def fill (content : σ → Tree K V) : Tree K σ → Tree K V
  | .leaf s => content s
  | .object fields => .object (fillAll content fields)

def fillAll (content : σ → Tree K V) : List (K × Tree K σ) → List (K × Tree K V)
  | [] => []
  | (k, t) :: rest => (k, fill content t) :: fillAll content rest

end

/-- The open places with their paths. -/
def slots (t : Tree K σ) : List (List K × σ) := leaves (fun path k => path ++ [k]) [] t

end

section

variable {K V : Type} [LinearOrder K]

/-- The value is entered at the path. Objects that are missing on the way are made, and
there is no way through what is no object. -/
def write (v : V) : List K → Tree K V → Option (Tree K V)
  | [], t => some t
  | [k], .object fields => some (.object (insert k (.leaf v) fields))
  | [_], .leaf w => some (.leaf w)
  | k :: path, .object fields => do
      let t ← write v path ((get? k fields).getD (.object []))
      some (.object (insert k t fields))
  | _ :: _, .leaf _ => none

mutual

def Ordered : Tree K V → Bool
  | .leaf _ => true
  | .object fields => decide (Sorted fields) && OrderedAll fields

def OrderedAll : List (K × Tree K V) → Bool
  | [] => true
  | (_, t) :: rest => Ordered t && OrderedAll rest

end

end

variable {K V σ P : Type}

/-- What holds of an object when it holds of its values holds of every tree. -/
@[elab_as_elim]
theorem Tree.inductionOn {motive : Tree K V → Prop} (t : Tree K V) (leaf : ∀ v, motive (.leaf v))
    (object : ∀ fields, (∀ e ∈ fields, motive e.2) → motive (.object fields)) : motive t := by
  match t with
  | .leaf v => exact leaf v
  | .object fields =>
      refine object fields fun e he => ?_
      have hsize : sizeOf e.2 < sizeOf fields := by
        have he' := List.sizeOf_lt_of_mem he
        rw [Prod.mk.sizeOf_spec] at he'
        omega
      exact e.2.inductionOn leaf object
termination_by t
decreasing_by
  simp only [Tree.object.sizeOf_spec]
  omega

section Shapes

theorem leavesOf_eq_flatMap (join : P → K → P) (path : P) (fields : List (K × Tree K V)) :
    leavesOf join path fields = fields.flatMap fun e => leaves join (join path e.1) e.2 := by
  induction fields with
  | nil => rfl
  | cons e rest ih => rw [leavesOf, ih, List.flatMap_cons]

theorem fillAll_eq_map (content : σ → Tree K V) (fields : List (K × Tree K σ)) :
    fillAll content fields = fields.map fun e => (e.1, fill content e.2) := by
  induction fields with
  | nil => rfl
  | cons e rest ih => rw [fillAll, ih, List.map_cons]

@[simp]
theorem leaves_object (join : P → K → P) (path : P) (fields : List (K × Tree K V)) :
    leaves join path (.object fields) = fields.flatMap fun e => leaves join (join path e.1) e.2 := by
  rw [leaves, leavesOf_eq_flatMap]

@[simp]
theorem fill_object (content : σ → Tree K V) (fields : List (K × Tree K σ)) :
    fill content (.object fields) = .object (fields.map fun e => (e.1, fill content e.2)) := by
  rw [fill, fillAll_eq_map]

/-- The paths are those of the places, joined. -/
theorem leaves_eq_slots (join : P → K → P) (t : Tree K V) (path : P) :
    leaves join path t = (slots t).map fun e => (e.1.foldl join path, e.2) := by
  suffices h : ∀ front : List K, leaves join (front.foldl join path) t =
      (leaves (fun path k => path ++ [k]) front t).map fun e => (e.1.foldl join path, e.2) from h []
  induction t using Tree.inductionOn with
  | leaf v => intro front; rfl
  | object fields ih =>
      intro front
      rw [leaves_object, leaves_object, List.map_flatMap]
      refine List.flatMap_congr fun e he => ?_
      rw [← ih e he, List.foldl_concat]

theorem foldl_snoc (path q : List K) : q.foldl (fun path k => path ++ [k]) path = path ++ q := by
  induction q generalizing path with
  | nil => exact (List.append_nil path).symm
  | cons k q ih => rw [List.foldl_cons, ih, List.append_assoc, List.singleton_append]

@[simp]
theorem slots_leaf (v : V) : slots (.leaf v : Tree K V) = [([], v)] := rfl

@[simp]
theorem slots_object (fields : List (K × Tree K V)) :
    slots (.object fields) = fields.flatMap fun e => (slots e.2).map fun s => (e.1 :: s.1, s.2) := by
  rw [slots, leaves_object]
  refine List.flatMap_congr fun e _ => ?_
  rw [leaves_eq_slots]
  refine List.map_congr_left fun s _ => ?_
  rw [foldl_snoc, List.nil_append, List.singleton_append]

/-- The values of a filled tree are those of what its places hold. -/
theorem leaves_fill (join : P → K → P) (content : σ → Tree K V) (t : Tree K σ) (path : P) :
    leaves join path (fill content t) = (slots t).flatMap fun s => leaves join (s.1.foldl join path) (content s.2) := by
  induction t using Tree.inductionOn generalizing path with
  | leaf s => rw [fill, slots_leaf, List.flatMap_singleton, List.foldl_nil]
  | object fields ih =>
      rw [fill_object, leaves_object, slots_object, List.flatMap_map, List.flatMap_assoc]
      refine List.flatMap_congr fun e he => ?_
      rw [ih e he, List.flatMap_map]
      rfl

theorem fill_congr {content content' : σ → Tree K V} {t : Tree K σ}
    (h : ∀ s ∈ (slots t).map (·.2), content s = content' s) : fill content t = fill content' t := by
  induction t using Tree.inductionOn with
  | leaf s => exact h s (List.mem_singleton_self s)
  | object fields ih =>
      rw [fill_object, fill_object]
      congr 1
      refine List.map_congr_left fun e he => ?_
      rw [ih e he fun s hs => h s ?_]
      obtain ⟨p, hp, rfl⟩ := List.mem_map.mp hs
      rw [slots_object]
      exact List.mem_map.mpr ⟨(e.1 :: p.1, p.2), List.mem_flatMap.mpr ⟨e, he, List.mem_map_of_mem hp⟩, rfl⟩

/-- A filled tree shows what each of its places holds. -/
theorem eq_of_fill_eq {content content' : σ → Tree K V} {t : Tree K σ} (h : fill content t = fill content' t)
    {s : σ} (hs : s ∈ (slots t).map (·.2)) : content s = content' s := by
  induction t using Tree.inductionOn with
  | leaf s' => rwa [List.mem_singleton.mp hs]
  | object fields ih =>
      rw [fill_object, fill_object, Tree.object.injEq, List.map_inj_left] at h
      rw [slots_object, List.map_flatMap] at hs
      obtain ⟨e, he, hs⟩ := List.mem_flatMap.mp hs
      rw [List.map_map] at hs
      exact ih e he (Prod.mk.inj (h e he)).2 hs

end Shapes

section Places

theorem eq_leaf_of_mem_slots {t : Tree K σ} {s : σ} (h : ([], s) ∈ slots t) : t = .leaf s := by
  cases t with
  | leaf s' => rw [(Prod.mk.inj (List.mem_singleton.mp h)).2]
  | object fields => simp at h

theorem places_object (fields : List (K × Tree K σ)) :
    (slots (.object fields)).map (·.2) = fields.flatMap fun e => (slots e.2).map (·.2) := by
  rw [slots_object, List.map_flatMap]
  simp only [List.map_map, Function.comp_def]

variable [DecidableEq σ] {s : σ}

/-- Entries without the place do not show what it holds. -/
theorem fillEntries_update {fields : List (K × Tree K σ)}
    (h : s ∉ fields.flatMap fun e => (slots e.2).map (·.2)) (content : σ → Tree K V) (x : Tree K V) :
    (fields.map fun e => (e.1, fill (Function.update content s x) e.2)) =
      fields.map fun e => (e.1, fill content e.2) := by
  refine List.map_congr_left fun e he => ?_
  have hother : ∀ s' ∈ (slots e.2).map (·.2), Function.update content s x s' = content s' := by
    intro s' hs'
    apply Function.update_of_ne
    rintro rfl
    exact h (List.mem_flatMap.mpr ⟨e, he, hs'⟩)
  rw [fill_congr hother]

end Places

section Writing

variable [LinearOrder K]

theorem ordered_object {fields : List (K × Tree K V)} (h : Ordered (.object fields) = true) :
    Sorted fields ∧ ∀ e ∈ fields, Ordered e.2 = true := by
  rw [Ordered, Bool.and_eq_true, decide_eq_true_eq] at h
  refine ⟨h.1, ?_⟩
  have hall := h.2
  clear h
  induction fields with
  | nil => simp
  | cons e rest ih =>
      rw [OrderedAll, Bool.and_eq_true] at hall
      exact List.forall_mem_cons.mpr ⟨hall.1, ih hall.2⟩

/-- Past its first step a path is written in the entry that the step names. -/
theorem write_of_split {front back : List (K × Tree K V)} {k : K} {t t' : Tree K V} {path : List K} {v : V}
    (hsorted : Sorted (front ++ (k, t) :: back)) (hpath : path ≠ []) (h : write v path t = some t') :
    write v (k :: path) (.object (front ++ (k, t) :: back)) = some (.object (front ++ (k, t') :: back)) := by
  cases path with
  | nil => exact absurd rfl hpath
  | cons j path =>
      rw [write, get?_of_split hsorted, Option.getD_some, h, Option.bind_eq_bind, Option.bind_some,
        insert_of_split hsorted]
      exact List.cons_ne_nil j path

variable [DecidableEq σ]

/-- Writing at the path of a place changes what the place holds. -/
theorem write_fill {t : Tree K σ} (ht : Ordered t = true) (hplaces : ((slots t).map (·.2)).Nodup)
    {path : List K} {s : σ} (hs : (path, s) ∈ slots t) (hpath : path ≠ []) (content : σ → Tree K V) (v : V) :
    write v path (fill content t) = some (fill (Function.update content s (.leaf v)) t) := by
  induction path generalizing t with
  | nil => exact absurd rfl hpath
  | cons k path ih =>
      cases t with
      | leaf s' => simp at hs
      | object fields =>
          obtain ⟨hsorted, hordered⟩ := ordered_object ht
          rw [places_object] at hplaces
          rw [slots_object] at hs
          obtain ⟨⟨k', t⟩, he, hs⟩ := List.mem_flatMap.mp hs
          obtain ⟨p, hp, hkp⟩ := List.mem_map.mp hs
          obtain ⟨⟨rfl, rfl⟩, rfl⟩ : (k' = k ∧ p.1 = path) ∧ p.2 = s := by simpa using hkp
          have hplace : p.2 ∈ (slots t).map (·.2) := List.mem_map_of_mem hp
          obtain ⟨front, back, rfl⟩ := List.append_of_mem he
          -- the place stands in this entry and in no other
          rw [List.flatMap_append, List.flatMap_cons, List.nodup_append, List.nodup_append] at hplaces
          obtain ⟨-, ⟨ht', -, hback⟩, hfront⟩ := hplaces
          have hnotFront : p.2 ∉ front.flatMap fun e => (slots e.2).map (·.2) := fun h =>
            hfront _ h _ (List.mem_append_left _ hplace) rfl
          have hnotBack : p.2 ∉ back.flatMap fun e => (slots e.2).map (·.2) := fun h => hback _ hplace _ h rfl
          have hfilled : Sorted ((front.map fun e => (e.1, fill content e.2)) ++
              (k', fill content t) :: back.map fun e => (e.1, fill content e.2)) := by
            rw [Sorted] at hsorted ⊢
            simpa [Function.comp_def] using hsorted
          rw [fill_object, fill_object, List.map_append, List.map_append, List.map_cons, List.map_cons,
            fillEntries_update hnotFront, fillEntries_update hnotBack]
          rcases eq_or_ne p.1 [] with hnil | hnil
          · have hleaf : t = .leaf p.2 := eq_leaf_of_mem_slots (hnil ▸ hp)
            subst hleaf
            rw [hnil, write, insert_of_split hfilled, fill, Function.update_self]
          · exact write_of_split hfilled hnil (ih (hordered _ he) ht' hp hnil)

end Writing

end NixiSbc.ObjectTrees
