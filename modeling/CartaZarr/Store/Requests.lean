import CartaZarr.Store.Inventory

/-!
# What is asked of a store

A store is asked for nodes, for arrays and for their values, in any order and any number of times;
the sessions that come of it are those it can reach. Each answer is remembered and stands for the
one the store has to give, and so does every answer of a session that is reached (`Reached.sound`).
-/

namespace CartaZarr.Store

variable {store : Store} {failing : Prop} {outages : Outages}

theorem gives_resolveArrayDirectory (hout : outages.Transient failing) (node : String) :
    store.Gives failing (store.resolveArrayDirectory outages node)
      (store.directoryAnswer node) := by
  unfold resolveArrayDirectory directoryAnswer
  cases normalizeNodeName node with
  | error e => exact Gives.pure (Stands.refl _)
  | ok name => exact gives_ask hout _

/-- Values are read of an array that was held to its own document, where the array is. -/
theorem gives_readVerified {α : Type} [Unname α] (hfiled : store.Filed)
    (hout : outages.Transient failing)
    (node : String) {read : ArrayMetadata → String → StateM Session (Except Error α)}
    {answer : ArrayMetadata → String → Except Error α}
    (hread : ∀ own directory, store.Gives failing (read own directory) (answer own directory)) :
    store.Gives failing (store.readVerified outages node read) (do
      let own ← store.verifyAnswer node
      let directory ← store.directoryAnswer node
      answer own directory) :=
  (gives_verifyArray hfiled hout node).andThen (fun _ => rfl) fun own _ =>
    (gives_resolveArrayDirectory hout node).andThen (fun _ => rfl) fun directory _ =>
      hread own directory

theorem gives_readNumericArray (hfiled : store.Filed)
    (hout : outages.Transient failing) (node : String) :
    store.Gives failing (store.readNumericArray outages node) (store.numericAnswer node) := by
  have hkey : unname (store.numericAnswer node) = _ := unname_numericAnswer node
  refine Refines.remember Session.Extends.refl (fun _ _ _ => Session.Extends.trans)
    (fun s hs answer hmem => (hs.doubleArrays _ answer hmem).of_unname hkey.symm)
    (fun s answer hs hstands => hs.keepDoubleArrays (hstands.of_unname hkey))
    (fun s answer => s.extends_keepDoubleArrays _ answer) ?_
  exact gives_readVerified hfiled hout node fun own directory =>
    (gives_ask hout _).andThen (fun _ => rfl) fun values _ => Gives.pure (Stands.refl _)

theorem gives_readStringArray1D (hfiled : store.Filed)
    (hout : outages.Transient failing) (node : String) :
    store.Gives failing (store.readStringArray1D outages node) (store.stringAnswer node) := by
  have hkey : unname (store.stringAnswer node) = _ := unname_stringAnswer node
  unfold readStringArray1D
  cases h : normalizeNodeName node with
  | error e =>
    refine Gives.pure ?_
    rw [stringAnswer, verifyAnswer, arrayAnswer, nodeAnswer, h]
    exact Stands.refl _
  | ok name =>
    rw [cacheKey_of_ok h] at hkey
    exact Refines.remember Session.Extends.refl (fun _ _ _ => Session.Extends.trans)
      (fun s hs answer hmem => (hs.stringArrays _ answer hmem).of_unname hkey.symm)
      (fun s answer hs hstands => hs.keepStringArrays (hstands.of_unname hkey))
      (fun s answer => s.extends_keepStringArrays _ answer)
      (gives_readVerified hfiled hout node fun own directory => gives_ask hout _)

theorem gives_readPixelsInto {α : Type} [Unname α] (hfiled : store.Filed)
    (hout : outages.Transient failing) (node : String) (read : String → Except Error α) :
    store.Gives failing (store.readPixelsInto outages node read) (do
      let _ ← store.verifyAnswer node
      let directory ← store.directoryAnswer node
      read directory) :=
  gives_readVerified hfiled hout node fun _ directory => gives_ask hout (read directory)

/-- One thing a store is asked for. -/
inductive Request
  | nodeMetadata (node : String)
  | arrayMetadata (node : String)
  | verifiedArray (node : String)
  | inventory
  | node (name : String)
  | arrayDirectory (node : String)
  | numericArray (node : String)
  | stringArray (node : String)
  | pixels (node : String)

/-- The session after a request. -/
def after (store : Store) (outages : Outages) (s : Session) : Request → Session
  | .nodeMetadata node => (store.readNodeMetadata outages node s).2
  | .arrayMetadata node => (store.readArrayMetadata outages node s).2
  | .verifiedArray node => (store.verifyArray outages node s).2
  | .inventory => (store.inventory outages s).2
  | .node name => (store.findNode outages name s).2
  | .arrayDirectory node => (store.resolveArrayDirectory outages node s).2
  | .numericArray node => (store.readNumericArray outages node s).2
  | .stringArray node => (store.readStringArray1D outages node s).2
  | .pixels node => (store.readPixelsInto outages node Except.ok s).2

/-- The sessions that come of requests. -/
inductive Reached (store : Store) (outages : Outages) : Session → Prop
  | initial : Reached store outages store.initial
  | after {s : Session} (request : Request) : Reached store outages s →
      Reached store outages (store.after outages s request)

theorem after_findNode (name : String) (s : Session) :
    (store.findNode outages name s).2 = (store.inventory outages s).2 := by
  unfold findNode
  rcases hrun : store.inventory outages s with ⟨r, s'⟩
  simp only [bind, StateT.bind, hrun]
  cases r <;> rfl

/-- A request keeps a session sound, and forgets nothing. -/
theorem Sound.after (hfiled : store.Filed) (hout : outages.Transient failing) {s : Session}
    (hs : store.Sound failing s) (request : Request) :
    store.Sound failing (store.after outages s request) ∧
    s.Extends (store.after outages s request) := by
  cases request with
  | nodeMetadata node => exact (gives_readNodeMetadata hfiled hout node s hs).imp_right And.left
  | arrayMetadata node => exact (gives_readArrayMetadata hfiled hout node s hs).imp_right And.left
  | verifiedArray node => exact (gives_verifyArray hfiled hout node s hs).imp_right And.left
  | inventory => exact (gives_inventory hfiled hout s hs).imp_right And.left
  | node name =>
    rw [Store.after, after_findNode]
    exact (gives_inventory hfiled hout s hs).imp_right And.left
  | arrayDirectory node => exact (gives_resolveArrayDirectory hout node s hs).imp_right And.left
  | numericArray node => exact (gives_readNumericArray hfiled hout node s hs).imp_right And.left
  | stringArray node => exact (gives_readStringArray1D hfiled hout node s hs).imp_right And.left
  | pixels node => exact (gives_readPixelsInto hfiled hout node _ s hs).imp_right And.left

/-- **Every session that is reached is sound.** -/
theorem Reached.sound {backing : Backing} (hopen : openStore backing = .ok store)
    (hout : outages.Transient failing) {s : Session} (h : Reached store outages s) :
    store.Sound failing s := by
  have hfiled := openStore_filed hopen
  induction h with
  | initial => exact hfiled.sound_initial
  | after request _ ih => exact (ih.after hfiled hout request).1

end CartaZarr.Store
