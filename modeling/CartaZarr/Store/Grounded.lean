import CartaZarr.Store.HandedBack

/-!
# What an answer rests on

The tables of a session lie over each other, and so do their answers: whatever was read of an array,
its metadata was parsed, and the metadata of an array is parsed from its document
(`Reached.grounded`). So where the values of an array have been read, its document and its metadata
are handed back without another read (`settles_readNumericArray`, `settles_readStringArray1D`), and
no failure of a read is theirs.
-/

namespace CartaZarr

namespace Session

/-- The document of a node is there. -/
def HasDocument (s : Session) (key : String) : Prop :=
  ∃ document, (s.nodeMetadata key).getLast? = some (.ok document)

/-- The metadata of an array is there. -/
def HasArray (s : Session) (key : String) : Prop :=
  ∃ image, (s.arrayMetadata key).getLast? = some (.ok image)

/-- Every answer of a session has beneath it what it was computed from. -/
structure Grounded (s : Session) : Prop where
  arrays : ∀ key image, (s.arrayMetadata key).getLast? = some (.ok image) → s.HasDocument key
  verified : ∀ node own, (s.verifiedArrays node).getLast? = some (.ok own) →
    s.HasArray (Store.cacheKey node)
  numbers : ∀ key array, (s.doubleArrays key).getLast? = some (.ok array) → s.HasArray key
  strings : ∀ key labels, (s.stringArrays key).getLast? = some (.ok labels) → s.HasArray key

variable {s t : Session} {key : String}

theorem Firm.hasDocument (h : s.Firm t) (hs : s.HasDocument key) : t.HasDocument key := by
  obtain ⟨document, hlast⟩ := hs
  exact ⟨document, by rw [h.nodeMetadata _ _ hlast rfl, hlast]⟩

theorem Firm.hasArray (h : s.Firm t) (hs : s.HasArray key) : t.HasArray key := by
  obtain ⟨image, hlast⟩ := hs
  exact ⟨image, by rw [h.arrayMetadata _ _ hlast rfl, hlast]⟩

/-- A move of a session that leaves the tables above documents alone. -/
theorem Grounded.of_firm (hs : s.Grounded) (h : s.Firm t)
    (hsame : aboveNodes t = aboveNodes s) : t.Grounded := by
  have harrays : t.arrayMetadata = s.arrayMetadata := congrArg (fun p => p.1) hsame
  have hverified : t.verifiedArrays = s.verifiedArrays := congrArg (fun p => p.2.1) hsame
  have hnumbers : t.doubleArrays = s.doubleArrays := congrArg (fun p => p.2.2.2.1) hsame
  have hstrings : t.stringArrays = s.stringArrays := congrArg (fun p => p.2.2.2.2) hsame
  refine ⟨fun key image hlast => ?_, fun node own hlast => ?_, fun key array hlast => ?_,
    fun key labels hlast => ?_⟩
  · exact h.hasDocument (hs.arrays key image (by rwa [← harrays]))
  · exact h.hasArray (hs.verified node own (by rwa [← hverified]))
  · exact h.hasArray (hs.numbers key array (by rwa [← hnumbers]))
  · exact h.hasArray (hs.strings key labels (by rwa [← hstrings]))

/-- The answers of a table with one more rest on what they rested on, where that one does. -/
theorem rests_push {α : Type} {memo : Memo String (Except Error α)} {rests : String → Prop}
    (h : ∀ key a, (memo key).getLast? = some (.ok a) → rests key) {key : String}
    {answer : Except Error α}
    (hanswer : ∀ a, answer = .ok a → rests key) (k : String) (a : α)
    (hlast : (memo.push key answer k).getLast? = some (.ok a)) : rests k := by
  by_cases hk : k = key
  · subst hk
    rw [Memo.getLast?_push_self] at hlast
    exact hanswer a (Option.some.inj hlast)
  · refine h k a ?_
    rwa [Memo.push, Function.update_of_ne hk] at hlast

end Session

namespace Store

open Session

variable {store : Store} {outages : Outages}

/-- Asking the transport leaves every table as it is. -/
theorem grounded_ask {α : Type} (answer : Except Error α) :
    Triple Grounded (ask outages answer) fun _ s => s.Grounded := by
  intro s hs
  have hmoves : Moves (FirmAnd tables) (ask outages answer) := moves_ask answer
  exact hs.of_firm (hmoves s).1 rfl

theorem grounded_readNodeMetadata
    (node : String) : Triple Grounded (store.readNodeMetadata outages node)
    fun r s => (∀ document, r = .ok document → s.HasDocument (cacheKey node)) ∧ s.Grounded := by
  intro s hs
  have hmoves : Moves (FirmAnd aboveNodes) (store.readNodeMetadata outages node) :=
    moves_readNodeMetadata node
  refine ⟨fun document h => ⟨document, ?_⟩, hs.of_firm (hmoves s).1 (hmoves s).2⟩
  rw [readNodeMetadata_eq] at h ⊢
  rw [← h]
  exact getLast?_remember _ _ _ _ _ s fun s answer =>
    Memo.getLast?_push_self s.nodeMetadata _ answer

theorem grounded_readArrayMetadata
    (node : String) : Triple Grounded (store.readArrayMetadata outages node)
    fun r s => (∀ image, r = .ok image → s.HasArray (cacheKey node)) ∧ s.Grounded := by
  have hgrounded : Triple Grounded (store.readArrayMetadata outages node) fun _ s =>
      s.Grounded := by
    refine triple_remember (q := fun r s =>
      (∀ image, r = .ok image → s.HasDocument (cacheKey node)) ∧ s.Grounded)
      (fun s s' (h : aboveNodes s' = aboveNodes s) =>
        congrArg (fun t => t.1) h) ?_ ?_ fun s answer hopen hs => ?_
    · split
      · exact Moves.pure _
      · exact (moves_readNodeMetadata node).bind fun r => by cases r <;> exact Moves.pure _
    · split
      · exact Triple.pure fun s hs => ⟨by simp, hs⟩
      · refine (grounded_readNodeMetadata node).bind fun r => ?_
        cases r with
        | error e => exact Triple.pure fun s hs => ⟨by simp, hs.2⟩
        | ok document => exact Triple.pure fun s hs => ⟨fun _ _ => hs.1 document rfl, hs.2⟩
    · obtain ⟨hanswer, hs⟩ := hs
      have hfirm := firm_keepArrayMetadata hopen answer
      exact ⟨fun k image hlast => hfirm.hasDocument (rests_push hs.arrays hanswer k image hlast),
        fun n own hlast => hfirm.hasArray (hs.verified n own hlast),
        fun k array hlast => hfirm.hasArray (hs.numbers k array hlast),
        fun k labels hlast => hfirm.hasArray (hs.strings k labels hlast)⟩
  exact fun s hs => ⟨fun image h =>
    ⟨image, parsed_readArrayMetadata node s trivial image h⟩, hgrounded s hs⟩

theorem grounded_verifyArray (node : String) : Triple Grounded (store.verifyArray outages node)
    fun r s => (∀ own, r = .ok own → s.HasArray (cacheKey node)) ∧ s.Grounded := by
  have hgrounded : Triple Grounded (store.verifyArray outages node) fun _ s => s.Grounded := by
    refine triple_remember (q := fun r s =>
      (∀ own, r = .ok own → s.HasArray (cacheKey node)) ∧ s.Grounded)
      (fun s s' (h : aboveArrays s' = aboveArrays s) =>
        congrArg (fun t => t.1) h) ?_ ?_ fun s answer hopen hs => ?_
    · refine (moves_readArrayMetadata node).bind fun r => ?_
      cases r with
      | error e => exact Moves.pure _
      | ok copy =>
        dsimp only
        split_ifs
        · exact ((moves_ask _).mono fun s s' h =>
            ⟨h.1, congrArg (fun t => t.2.2) h.2⟩).bind fun _ => Moves.pure _
        · exact Moves.pure _
    · refine (grounded_readArrayMetadata node).bind fun r => ?_
      cases r with
      | error e => exact Triple.pure fun s hs => ⟨by simp, hs.2⟩
      | ok copy =>
        dsimp only
        split_ifs
        · refine Triple.bind (q := fun _ s => s.HasArray (cacheKey node) ∧ s.Grounded) ?_ fun r =>
            Triple.pure fun s hs => ⟨fun _ _ => hs.1, hs.2⟩
          rintro s ⟨harray, hs⟩
          have hask : Moves (FirmAnd tables)
            (ask outages (store.backing.readNodeBytes (cacheKey node))) := moves_ask _
          exact ⟨(hask s).1.hasArray (harray copy rfl), grounded_ask _ s hs⟩
        · exact Triple.pure fun s hs => ⟨fun _ _ => hs.1 copy rfl, hs.2⟩
    · obtain ⟨hanswer, hs⟩ := hs
      have hfirm := firm_keepVerifiedArrays hopen answer
      have hverified : ∀ n own, ((s.keepVerifiedArrays node answer).verifiedArrays n).getLast? =
        some (.ok own) →
          s.HasArray (cacheKey n) := fun n own hlast => rests_push hs.verified hanswer n own hlast
      exact ⟨fun k image hlast => hfirm.hasDocument (hs.arrays k image hlast),
        fun n own hlast => hfirm.hasArray (hverified n own hlast),
        fun k array hlast => hfirm.hasArray (hs.numbers k array hlast),
        fun k labels hlast => hfirm.hasArray (hs.strings k labels hlast)⟩
  refine fun s hs => ⟨fun own h => (hgrounded s hs).verified node own ?_, hgrounded s hs⟩
  rw [← h]
  exact getLast?_remember _ _ _ _ _ s fun s answer =>
    Memo.getLast?_push_self s.verifiedArrays _ answer

theorem grounded_readVerified {α : Type} (node : String)
    {read : ArrayMetadata → String → StateM Session (Except Error α)}
    (hmoves : ∀ own directory, Moves (FirmAnd tables) (read own directory)) :
    Triple Grounded (store.readVerified outages node read)
      fun r s => (∀ a, r = .ok a → s.HasArray (cacheKey node)) ∧ s.Grounded := by
  have hstays : ∀ {β : Type} {x : StateM Session β}, Moves (FirmAnd tables) x →
      Triple (fun s => s.HasArray (cacheKey node) ∧ s.Grounded) x
        fun _ s => s.HasArray (cacheKey node) ∧ s.Grounded := fun h s hs =>
    ⟨(h s).1.hasArray hs.1, hs.2.of_firm (h s).1 (congrArg (fun p => p.2) (h s).2)⟩
  refine (grounded_verifyArray node).bind fun r => ?_
  cases r with
  | error e => exact Triple.pure fun s hs => ⟨by simp, hs.2⟩
  | ok own =>
    have hdirectory : Moves (FirmAnd tables) (store.resolveArrayDirectory outages node) :=
      moves_resolveArrayDirectory node
    refine ((hstays hdirectory).imp (fun s hs => ⟨hs.1 own rfl, hs.2⟩) fun _ _ h =>
      h).bind fun r => ?_
    cases r with
    | error e => exact Triple.pure fun s hs => ⟨by simp, hs.2⟩
    | ok directory =>
      exact (hstays (hmoves own directory)).imp (fun s hs => hs) fun r s hs =>
        ⟨fun _ _ => hs.1, hs.2⟩

/-- What rests on values that were read is there. -/
theorem grounded_readNumericArray
    (node : String) : Triple Grounded (store.readNumericArray outages node)
    fun r s => (∀ array, r = .ok array → s.HasArray (cacheKey node)) ∧ s.Grounded := by
  have hgrounded : Triple Grounded (store.readNumericArray outages node) fun _ s => s.Grounded := by
    refine triple_remember (q := fun r s =>
      (∀ array, r = .ok array → s.HasArray (cacheKey node)) ∧ s.Grounded)
      (fun s s' (h : aboveVerified s' = aboveVerified s) => congrArg (fun t => t.2.1) h)
      (moves_readVerified node fun own directory => (moves_ask _).bind fun r => ?_)
      (grounded_readVerified node fun own directory => (moves_ask _).bind fun r =>
        ?_) fun s answer hopen hs => ?_
    · cases r <;> exact Moves.pure _
    · cases r <;> exact Moves.pure _
    obtain ⟨hanswer, hs⟩ := hs
    have hfirm := firm_keepDoubleArrays hopen answer
    exact ⟨fun k image hlast => hfirm.hasDocument (hs.arrays k image hlast),
      fun n own hlast => hfirm.hasArray (hs.verified n own hlast),
      fun k array hlast => hfirm.hasArray (rests_push hs.numbers hanswer k array hlast),
      fun k labels hlast => hfirm.hasArray (hs.strings k labels hlast)⟩
  refine fun s hs => ⟨fun array h => (hgrounded s hs).numbers _ array ?_, hgrounded s hs⟩
  rw [← h]
  exact getLast?_remember _ _ _ _ _ s fun s answer =>
    Memo.getLast?_push_self s.doubleArrays _ answer

theorem grounded_readStringArray1D
    (node : String) : Triple Grounded (store.readStringArray1D outages node)
    fun r s => (∀ labels, r = .ok labels → s.HasArray (cacheKey node)) ∧ s.Grounded := by
  unfold readStringArray1D
  split
  · exact Triple.pure fun s hs => ⟨by simp, hs⟩
  rename_i name hname
  have hread : ∀ own directory, Moves (FirmAnd tables) (ask outages
      (readFixedLengthUtf32StringArray store.backing.decompressors
          store.backing.files directory own node)) :=
    fun own directory => moves_ask _
  rw [← cacheKey_of_ok hname]
  have hgrounded : Triple Grounded
    (remember Session.stringArrays Session.keepStringArrays askAgain (cacheKey node)
      (store.readVerified outages node fun own directory => ask outages
        (readFixedLengthUtf32StringArray store.backing.decompressors
          store.backing.files directory own node)))
      fun _ s => s.Grounded := by
    refine triple_remember (q := fun r s =>
      (∀ labels, r = .ok labels → s.HasArray (cacheKey node)) ∧ s.Grounded)
      (fun s s' (h : aboveVerified s' = aboveVerified s) => congrArg (fun t => t.2.2) h)
      (moves_readVerified node hread) (grounded_readVerified node hread) fun s answer hopen hs => ?_
    obtain ⟨hanswer, hs⟩ := hs
    have hfirm := firm_keepStringArrays hopen answer
    exact ⟨fun k image hlast => hfirm.hasDocument (hs.arrays k image hlast),
      fun n own hlast => hfirm.hasArray (hs.verified n own hlast),
      fun k array hlast => hfirm.hasArray (hs.numbers k array hlast),
      fun k labels hlast => hfirm.hasArray (rests_push hs.strings hanswer k labels hlast)⟩
  refine fun s hs => ⟨fun labels h => (hgrounded s hs).strings _ labels ?_, hgrounded s hs⟩
  rw [← h]
  exact getLast?_remember _ _ _ _ _ s fun s answer =>
    Memo.getLast?_push_self s.stringArrays _ answer

theorem grounded_readEntries (nodes : List String) :
    Triple Grounded (store.readEntries outages nodes) fun _ s => s.Grounded := by
  have hentry : ∀ node, Triple Grounded (store.readEntry outages node) fun _ s => s.Grounded := by
    intro node
    refine (grounded_readNodeMetadata node).bind fun r => ?_
    cases r with
    | error e => dsimp only; split_ifs <;> exact Triple.pure fun s hs => hs.2
    | ok document =>
      dsimp only
      split
      · exact Triple.pure fun s hs => hs.2
      · exact ((grounded_readArrayMetadata node).imp (fun s hs => hs.2) fun _ _ h =>
            h.2).bind fun _ =>
          Triple.pure fun s hs => hs
      · exact Triple.pure fun s hs => hs.2
  induction nodes with
  | nil => exact Triple.pure fun s hs => hs
  | cons node nodes ih =>
    refine (hentry node).bind fun r => ?_
    cases r with
    | error e => exact Triple.pure fun s hs => hs
    | ok entry => exact ih.bind fun rs => by cases rs <;> exact Triple.pure fun s hs => hs

theorem grounded_inventory : Triple Grounded (store.inventory outages) fun _ s => s.Grounded := by
  have hnames : Triple Grounded (store.nodeNames outages) fun _ s => s.Grounded := by
    unfold nodeNames
    split_ifs
    · exact Triple.pure fun s hs => hs
    · exact (grounded_ask _).bind fun r => by cases r <;> exact Triple.pure fun s hs => hs
  refine triple_remember (q := fun _ s => s.Grounded)
    (fun s s' (h : aboveArrays s' = aboveArrays s) =>
      congrArg (fun t => t.2.1) h) ?_ ?_ fun s answer hopen hs => ?_
  · refine moves_nodeNames.bind fun r => ?_
    cases r with
    | error e => exact Moves.pure _
    | ok names => exact moves_readEntries _
  · refine hnames.bind fun r => ?_
    cases r with
    | error e => exact Triple.pure fun s hs => hs
    | ok names => exact grounded_readEntries _
  · have hfirm := firm_keepInventory hopen answer
    exact ⟨fun k image hlast => hfirm.hasDocument (hs.arrays k image hlast),
      fun n own hlast => hfirm.hasArray (hs.verified n own hlast),
      fun k array hlast => hfirm.hasArray (hs.numbers k array hlast),
      fun k labels hlast => hfirm.hasArray (hs.strings k labels hlast)⟩

theorem grounded_after {s : Session} (hs : s.Grounded) (request : Request) :
    (store.after outages s request).Grounded := by
  cases request with
  | nodeMetadata node => exact (grounded_readNodeMetadata node s hs).2
  | arrayMetadata node => exact (grounded_readArrayMetadata node s hs).2
  | verifiedArray node => exact (grounded_verifyArray node s hs).2
  | inventory => exact grounded_inventory s hs
  | node name =>
    rw [after, after_findNode]
    exact grounded_inventory s hs
  | arrayDirectory node =>
    have hmoves : Moves (FirmAnd tables) (store.resolveArrayDirectory outages node) :=
      moves_resolveArrayDirectory node
    exact hs.of_firm (hmoves s).1 (congrArg (fun p => p.2) (hmoves s).2)
  | numericArray node => exact (grounded_readNumericArray node s hs).2
  | stringArray node => exact (grounded_readStringArray1D node s hs).2
  | pixels node => exact (grounded_readVerified node (fun _ _ => moves_ask _) s hs).2

/-- **Every answer rests on the answers it was computed from**, in every session that is reached. -/
theorem Reached.grounded {s : Session} (h : Reached store outages s) : s.Grounded := by
  induction h with
  | initial => constructor <;> rintro _ _ ⟨⟩
  | after request _ ih => exact grounded_after ih request

/-! ## An array that is settled -/

/-- The document and the metadata of a node are there. -/
structure Settles (s : Session) (node : String) : Prop where
  document : s.HasDocument (cacheKey node)
  array : s.HasArray (cacheKey node)

theorem Settles.firm {s t : Session} {node : String} (h : Settles s node)
    (hfirm : s.Firm t) : Settles t node :=
  ⟨hfirm.hasDocument h.document, hfirm.hasArray h.array⟩

/-- Its document is handed back, without a read. -/
theorem Settles.readNodeMetadata {s : Session} {node : String} (h : Settles s node) :
    (store.readNodeMetadata outages node s).2 = s := by
  obtain ⟨document, hlast⟩ := h.document
  rw [readNodeMetadata_eq, remember_of_current _ _ _ hlast rfl]

/-- And so is its metadata. -/
theorem Settles.readArrayMetadata {s : Session} {node : String} (h : Settles s node) :
    (store.readArrayMetadata outages node s).2 = s := by
  obtain ⟨image, hlast⟩ := h.array
  exact congrArg Prod.snd (remember_of_current _ _ _ hlast rfl)

theorem Session.HasArray.settles {s : Session} (hs : Reached store outages s) {node : String}
    (h : s.HasArray (cacheKey node)) : Settles s node := by
  obtain ⟨image, hlast⟩ := id h
  exact ⟨hs.grounded.arrays _ image hlast, h⟩

/-- An array whose numbers were read is settled. -/
theorem settles_readNumericArray (node : String) : Triple (Reached store outages)
    (store.readNumericArray outages node) (fun r s => Reached store outages s ∧
      ∀ array, r = .ok array → Settles s node) := fun s hs =>
  ⟨hs.after (.numericArray node), fun array h =>
    Session.HasArray.settles (hs.after (.numericArray node))
    ((grounded_readNumericArray node s hs.grounded).1 array h)⟩

theorem settles_readStringArray1D (node : String) : Triple (Reached store outages)
    (store.readStringArray1D outages node) (fun r s => Reached store outages s ∧
      ∀ labels, r = .ok labels → Settles s node) := fun s hs =>
  ⟨hs.after (.stringArray node), fun labels h =>
    Session.HasArray.settles (hs.after (.stringArray node))
    ((grounded_readStringArray1D node s hs.grounded).1 labels h)⟩

end Store

end CartaZarr
