import Cuesheet.Proofs.Document.Keys

/-!
# What a seal protects

A patch is refused if the nearest scene around its target is sealed (`refused_iff_nearest`). A
scene that is not sealed therefore opens what is inside it, also where a sealed scene stands around
it: patches are refused exactly inside sealed scenes at those targets, and only those, around which
no scene is sealed unless the nearest one is (`refused_iff_inside_sealed_iff`).
-/

namespace Cuesheet

open Xml (Node Tree)

namespace Document

/-- The seal of a scene, by its attributes. -/
def Sealed (scene : Node) : Prop :=
  scene.attribute? "sealed" = some "true" ∨
    scene.attribute? "sealed" = none ∧ scene.attribute? "data-sealed" = some "true"

theorem isSealed_iff {scene : Node} : isSealed scene = true ↔ Sealed scene := by
  unfold isSealed Sealed
  cases scene.attribute? "sealed" with
  | none => simp
  | some flag => simp

/-- A scene that a node is or stands in. -/
structure SceneAround (root node scene : Node) : Prop where
  inside : root.Encloses scene
  around : scene.Encloses node
  kind : isScene scene = true

/-- The innermost one. -/
structure NearestScene (root node scene : Node) : Prop extends SceneAround root node scene where
  nearest : ∀ outer, SceneAround root node outer → outer.Encloses scene

theorem NearestScene.unique {root node scene scene' : Node} (h : NearestScene root node scene)
    (h' : NearestScene root node scene') : scene = scene' :=
  (h'.nearest scene h.toSceneAround).antisymm (h.nearest scene' h'.toSceneAround)

variable {doc : Document} {node scene : Node}

theorem nearestScene_of_find? (hdoc : doc.tree.Keyed) (hnode : doc.tree.root.Encloses node)
    (h : (doc.tree.ancestors node.key).find? isScene = some scene) :
    NearestScene doc.tree.root node scene := by
  obtain ⟨hscene, inner, outer, hancestors, hnone⟩ := List.find?_eq_some_iff_append.mp h
  have hmem : scene ∈ doc.tree.ancestors node.key := by
    rw [hancestors]
    exact List.mem_append_right _ List.mem_cons_self
  obtain ⟨hinside, haround⟩ := (Tree.mem_ancestors hdoc.nodup hnode).mp hmem
  refine ⟨⟨hinside, haround, hscene⟩, fun other hother => ?_⟩
  have hmem' := (Tree.mem_ancestors hdoc.nodup hnode).mpr ⟨hother.inside, hother.around⟩
  have hpairs := doc.tree.ancestors_pairwise node.key
  rw [hancestors] at hmem' hpairs
  rcases List.mem_append.mp hmem' with hinner | houter
  · have hnot := hnone other hinner
    rw [hother.kind] at hnot
    cases hnot
  · rcases List.mem_cons.mp houter with rfl | houter
    · exact .self other
    · exact (List.pairwise_cons.mp (List.pairwise_append.mp hpairs).2.1).1 other houter

/-- The walk from a node up to the root finds the nearest scene, and only that. -/
theorem find?_ancestors_iff (hdoc : doc.tree.Keyed) (hnode : doc.tree.root.Encloses node) :
    (doc.tree.ancestors node.key).find? isScene = some scene ↔
      NearestScene doc.tree.root node scene := by
  constructor
  · exact nearestScene_of_find? hdoc hnode
  · intro h
    have hmem := (Tree.mem_ancestors hdoc.nodup hnode).mpr ⟨h.inside, h.around⟩
    cases hfind : (doc.tree.ancestors node.key).find? isScene with
    | none =>
        have hnot := List.find?_eq_none.mp hfind scene hmem
        exact absurd h.kind hnot
    | some scene' => rw [(nearestScene_of_find? hdoc hnode hfind).unique h]

theorem sealedSceneOf_eq_some_iff (hdoc : doc.tree.Keyed) (hnode : doc.tree.root.Encloses node)
    {id : String} :
    doc.sealedSceneOf node = some id ↔
      ∃ scene, NearestScene doc.tree.root node scene ∧ Sealed scene ∧ sceneId scene = id := by
  simp only [← find?_ancestors_iff hdoc hnode, ← isSealed_iff]
  unfold sealedSceneOf
  cases (doc.tree.ancestors node.key).find? isScene with
  | none => simp
  | some scene => simp

/-- Where a scene stands around a node, one is the nearest. -/
theorem SceneAround.exists_nearest (hdoc : doc.tree.Keyed) (hnode : doc.tree.root.Encloses node)
    (h : SceneAround doc.tree.root node scene) :
    ∃ nearest, NearestScene doc.tree.root node nearest := by
  have hmem := (Tree.mem_ancestors hdoc.nodup hnode).mpr ⟨h.inside, h.around⟩
  have hsome : ((doc.tree.ancestors node.key).find? isScene).isSome = true :=
    List.find?_isSome.mpr ⟨scene, hmem, h.kind⟩
  obtain ⟨nearest, hfind⟩ := Option.isSome_iff_exists.mp hsome
  exact ⟨nearest, nearestScene_of_find? hdoc hnode hfind⟩

end Document

namespace Patch

open Document

/-- The node whose scene decides about a patch: its target, the parent of what it inserts. There
is none if the target is missing or is a root that cannot go, and to seal a scene needs none. -/
def target? (doc : Document) : Patch → Option Node
  | .appendNode id _ _ => doc.tree.findId? id
  | .setAttr id _ _ => doc.tree.findId? id
  | .setText id _ => doc.tree.findId? id
  | .removeNode id => (doc.tree.findId? id).filter fun node => node.key != doc.tree.root.key
  | .replaceSubtree id _ =>
    (doc.tree.findId? id).filter fun node => node.key != doc.tree.root.key
  | .sealScene _ => none

variable {doc : Document} {patch : Patch} {node : Node}

theorem target_eq {op role id : String} (h : doc.tree.findId? id = some node) :
    target doc op role id = .ok node := by
  rw [target, h]

theorem inner_eq {op id : String}
    (h : (doc.tree.findId? id).filter (fun node => node.key != doc.tree.root.key) = some node) :
    inner doc op id = .ok node := by
  obtain ⟨hfind, hkey⟩ := Option.filter_eq_some_iff.mp h
  rw [inner, target_eq hfind]
  exact if_neg (bne_iff_ne.mp hkey)

/-- Whatever comes of it, it is not the refusal of a sealed scene. -/
def Unrefused {α : Type} (m : Except PatchFault α) : Prop := ∀ id, m ≠ .error (.sealedScene id)

theorem Unrefused.ok {α : Type} (a : α) : Unrefused (.ok a) := by
  intro id h
  cases h

theorem Unrefused.bind {α β : Type} {m : Except PatchFault α} {f : α → Except PatchFault β}
    (hm : Unrefused m) (hf : ∀ a, Unrefused (f a)) : Unrefused (m >>= f) := by
  cases m with
  | error fault => exact fun id h => hm id (by cases h; rfl)
  | ok a => exact hf a

theorem unrefused_nodeOf (doc : Document) (markup : String) : Unrefused (nodeOf doc markup) := by
  intro id h
  unfold nodeOf at h
  split at h <;> cases h

/-- With its target found, a patch asks for the seal before anything else, and nothing it does
afterwards is refused for a seal. -/
theorem apply_eq_checkSeal (h : target? doc patch = some node) (enforce : Bool) :
    ∃ edit : Except PatchFault (Document × Mutation),
      Unrefused edit ∧ patch.apply enforce doc = (do checkSeal doc enforce node; edit) := by
  cases patch with
  | appendNode parentId markup index =>
      refine ⟨_, ?_, by rw [apply, target_eq h]; rfl⟩
      exact (unrefused_nodeOf doc markup).bind fun child => .ok _
  | removeNode id =>
      refine ⟨_, fun id h => ?_, by rw [apply, inner_eq h]; rfl⟩
      split at h <;> cases h
  | setAttr id name value => exact ⟨_, .ok _, by rw [apply, target_eq h]; rfl⟩
  | setText id text => exact ⟨_, .ok _, by rw [apply, target_eq h]; rfl⟩
  | replaceSubtree id markup =>
      refine ⟨_, ?_, by rw [apply, inner_eq h]; rfl⟩
      refine (unrefused_nodeOf doc markup).bind fun replacement id h => ?_
      split at h <;> cases h
  | sealScene id => cases h

theorem target?_inside (h : target? doc patch = some node) : doc.tree.root.Encloses node := by
  have hfound : ∃ id, doc.tree.findId? id = some node := by
    cases patch with
    | appendNode id => exact ⟨id, h⟩
    | removeNode id => exact ⟨id, (Option.filter_eq_some_iff.mp h).1⟩
    | setAttr id => exact ⟨id, h⟩
    | setText id => exact ⟨id, h⟩
    | replaceSubtree id => exact ⟨id, (Option.filter_eq_some_iff.mp h).1⟩
    | sealScene id => cases h
  obtain ⟨id, hfind⟩ := hfound
  exact Node.mem_preorder.mp (List.mem_of_find?_eq_some hfind)

/-- A patch is refused for a seal exactly where the nearest scene is sealed. -/
theorem refused_iff_nearest (hdoc : doc.tree.Keyed) (h : target? doc patch = some node)
    {id : String} :
    patch.apply true doc = .error (.sealedScene id) ↔
      ∃ scene, NearestScene doc.tree.root node scene ∧ Sealed scene ∧ sceneId scene = id := by
  rw [← sealedSceneOf_eq_some_iff hdoc (target?_inside h)]
  obtain ⟨edit, hedit, happly⟩ := apply_eq_checkSeal h true
  rw [happly, checkSeal, if_pos rfl]
  cases doc.sealedSceneOf node with
  | none => exact ⟨fun herror => absurd herror (hedit id), nofun⟩
  | some id' =>
      constructor
      · intro herror
        cases herror
        rfl
      · intro hid
        cases hid
        rfl

/-- A patch is refused inside sealed scenes and nowhere else exactly if, at its target, a nearest
scene that is not sealed has no sealed one around it. -/
theorem refused_iff_inside_sealed_iff (hdoc : doc.tree.Keyed)
    (h : target? doc patch = some node) :
    ((∃ id, patch.apply true doc = .error (.sealedScene id)) ↔
        ∃ scene, SceneAround doc.tree.root node scene ∧ Sealed scene) ↔
      ∀ scene, NearestScene doc.tree.root node scene → ¬ Sealed scene →
        ∀ outer, SceneAround doc.tree.root node outer → ¬ Sealed outer := by
  have hrefused : (∃ id, patch.apply true doc = .error (.sealedScene id)) ↔
      ∃ scene, NearestScene doc.tree.root node scene ∧ Sealed scene := by
    simp only [refused_iff_nearest hdoc h]
    constructor
    · rintro ⟨id, scene, hnearest, hsealed, -⟩
      exact ⟨scene, hnearest, hsealed⟩
    · rintro ⟨scene, hnearest, hsealed⟩
      exact ⟨sceneId scene, scene, hnearest, hsealed, rfl⟩
  rw [hrefused]
  constructor
  · intro hiff scene hnearest hopen outer houter hsealed
    obtain ⟨scene', hnearest', hsealed'⟩ := hiff.mpr ⟨outer, houter, hsealed⟩
    rw [hnearest.unique hnearest'] at hopen
    exact hopen hsealed'
  · intro hopen
    constructor
    · rintro ⟨scene, hnearest, hsealed⟩
      exact ⟨scene, hnearest.toSceneAround, hsealed⟩
    · rintro ⟨outer, houter, hsealed⟩
      obtain ⟨scene, hnearest⟩ := houter.exists_nearest hdoc (target?_inside h)
      refine ⟨scene, hnearest, ?_⟩
      by_contra hnot
      exact hopen scene hnearest hnot outer houter hsealed

/-! ## A scene in a scene -/

/-- A box in a scene that stands in another scene. -/
def nestedScenes (outer inner : Entries String String) : Node :=
  { name := "vml", children := [
    { name := "scene", attributes := ("id", "outer") :: outer, children := [
      { name := "scene", attributes := ("id", "inner") :: inner, children := [
        { name := "box", attributes := [("id", "b")] }] }] }] }

def sceneInScene (outer inner : Entries String String) : Document where
  tree := .ofNode (nestedScenes outer inner)

/-- The box in it. -/
def innerBox : Node := { key := 3, name := "box", attributes := [("id", "b")] }

theorem keyed_sceneInScene (outer inner : Entries String String) :
    (sceneInScene outer inner).tree.Keyed :=
  Tree.keyed_ofNode (nestedScenes outer inner)

/-- A seal on the inner scene protects the box. -/
theorem sealed_inner_refuses :
    (∃ id, (setAttr "b" "x" (some "1")).apply true (sceneInScene [] [("sealed", "true")]) =
        .error (.sealedScene id)) ↔
      ∃ scene, SceneAround (sceneInScene [] [("sealed", "true")]).tree.root innerBox scene ∧
        Sealed scene := by
  have hdoc := keyed_sceneInScene [] [("sealed", "true")]
  refine (refused_iff_inside_sealed_iff hdoc rfl).mpr fun scene hnearest hopen => ?_
  have hrefused : (setAttr "b" "x" (some "1")).apply true (sceneInScene [] [("sealed", "true")]) =
      .error (.sealedScene "inner") := rfl
  obtain ⟨scene', hnearest', hsealed, -⟩ := (refused_iff_nearest hdoc rfl).mp hrefused
  rw [hnearest.unique hnearest'] at hopen
  exact absurd hsealed hopen

/-- A seal on the outer scene does not, the inner scene being open. -/
theorem sealed_outer_admits :
    target? (sceneInScene [("sealed", "true")] []) (setAttr "b" "x" (some "1")) =
        some innerBox ∧
      ¬ ((∃ id, (setAttr "b" "x" (some "1")).apply true (sceneInScene [("sealed", "true")] []) =
          .error (.sealedScene id)) ↔
        ∃ scene, SceneAround (sceneInScene [("sealed", "true")] []).tree.root innerBox scene ∧
          Sealed scene) := by
  refine ⟨rfl, fun hiff => ?_⟩
  have houter : ∃ scene,
      SceneAround (sceneInScene [("sealed", "true")] []).tree.root innerBox scene ∧
        Sealed scene := by
    refine ⟨_, ⟨.child List.mem_cons_self (.self _), ?_, rfl⟩, .inl rfl⟩
    exact .child List.mem_cons_self (.child List.mem_cons_self (.self innerBox))
  obtain ⟨id, hrefused⟩ := hiff.mpr houter
  have hadmitted : ((setAttr "b" "x" (some "1")).apply true
      (sceneInScene [("sealed", "true")] [])).isOk = true := rfl
  rw [hrefused] at hadmitted
  cases hadmitted

end Patch

end Cuesheet
