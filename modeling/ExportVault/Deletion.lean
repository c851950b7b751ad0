import ExportVault.System

/-!
# Deleting the chunks of an export

`deleteChunks` of `server/src/services/storage.service.ts`.  Page after page,
it asks for the deletion of exactly the objects under the prefix
(`deleteChunksFrom_eq`) and counts what it has asked for.  It does not look at
the errors a bulk delete answers with, so it does what it says exactly when
there are none (`deleteChunks_cleans_iff`).
-/

namespace ExportVault

open Interleaving

def dashAt (position : Nat) : Bool :=
  [8, 13, 18, 23].contains position

def isHexDigit (char : Char) : Bool :=
  char.isDigit || "abcdefABCDEF".toList.contains char

/-- The text of a UUID: 36 hexadecimal digits and dashes. -/
def isUuid (text : String) : Bool :=
  text.toList.length = 36 && text.toList.zipIdx.all fun entry =>
    if dashAt entry.2 then entry.1 = '-' else isHexDigit entry.1

theorem length_of_isUuid {text : String} (uuid : isUuid text = true) :
    text.toList.length = 36 := by
  simp only [isUuid, Bool.and_eq_true, decide_eq_true_eq] at uuid
  exact uuid.1

/-- Keys that begin with different exports of one length are different. -/
theorem exports_append_inj {first second : String} {left right : List Char}
    (sameLength : first.toList.length = second.toList.length) :
    "exports/".toList ++ (first.toList ++ left) =
        "exports/".toList ++ (second.toList ++ right) ↔
      first = second ∧ left = right := by
  rw [List.append_cancel_left_eq]
  constructor
  · intro same
    obtain ⟨texts, rests⟩ := List.append_inj same sameLength
    exact ⟨String.toList_inj.mp texts, rests⟩
  · rintro ⟨rfl, rfl⟩
    rfl

/-- The number a padded numeral stands for: the zeros come before the sign. -/
def readPadded (chars : List Char) : Int :=
  match chars.dropWhile (· = '0') with
  | '-' :: digits => -(Nat.ofDigitChars 10 digits 0 : Int)
  | _ => Nat.ofDigitChars 10 chars 0

/-- Zeros in front of a numeral leave it readable. -/
theorem readPadded_padStart (number : Int) :
    readPadded (padStart (toString number) 8 '0').toList = number := by
  cases number with
  | ofNat size =>
      have noSign : ∀ digits,
          (padStart (toString (Int.ofNat size)) 8 '0').toList.dropWhile
            (· = '0') ≠ '-' :: digits := by
        intro digits sign
        have member : '-' ∈ (padStart (toString (Int.ofNat size)) 8
            '0').toList := by
          apply (List.dropWhile_sublist (· = '0')).subset
          rw [sign]
          exact List.mem_cons_self
        have text : (toString (Int.ofNat size)).toList =
            Nat.toDigits 10 size := Nat.toList_repr
        rw [padStart, String.toList_ofList, text] at member
        rcases List.mem_append.mp member with fill | digit
        · exact absurd (List.eq_of_mem_replicate fill) (by decide)
        · exact absurd (Nat.isDigit_of_mem_toDigits (by decide) (by decide)
            digit) (by decide)
      rw [readPadded]
      split
      · next digits sign => exact absurd sign (noSign digits)
      · exact congrArg Int.ofNat (ofDigitChars_padStart size 8)
  | negSucc size =>
      have text : (toString (Int.negSucc size)).toList =
          '-' :: Nat.toDigits 10 (size + 1) := by
        change ("-" ++ (size + 1).repr).toList = _
        rw [String.toList_append, Nat.toList_repr]
        rfl
      have skipped : ∀ count, (List.replicate count '0' ++
          '-' :: Nat.toDigits 10 (size + 1)).dropWhile (· = '0') =
            '-' :: Nat.toDigits 10 (size + 1) := by
        intro count
        induction count with
        | zero => rfl
        | succ count inductionHypothesis => exact inductionHypothesis
      rw [readPadded, padStart, String.toList_ofList, text, skipped]
      simp only [Nat.ofDigitChars_ten_toDigits, Int.negSucc_eq]
      push_cast
      rfl

theorem padStart_toString_inj {first second : Int}
    (same : padStart (toString first) 8 '0' =
      padStart (toString second) 8 '0') : first = second := by
  have read := congrArg (fun text : String => readPadded text.toList) same
  simpa only [readPadded_padStart] using read

theorem chunkKey_injective {first second : String}
    (firstUuid : isUuid first = true) (secondUuid : isUuid second = true)
    {firstNumber secondNumber : Int} :
    chunkKey first firstNumber = chunkKey second secondNumber ↔
      first = second ∧ firstNumber = secondNumber := by
  constructor
  · intro same
    have lists := congrArg String.toList same
    simp only [chunkKey, String.toList_append, List.append_assoc] at lists
    obtain ⟨sameExport, rests⟩ := (exports_append_inj
      ((length_of_isUuid firstUuid).trans
        (length_of_isUuid secondUuid).symm)).mp lists
    simp only [List.append_cancel_left_eq, List.append_cancel_right_eq]
      at rests
    exact ⟨sameExport, padStart_toString_inj (String.toList_inj.mp rests)⟩
  · rintro ⟨rfl, rfl⟩
    rfl

/-- No key of another export is under the prefix. -/
theorem not_hasPrefix_of_ne {exportJobId other : String}
    (uuid : isUuid exportJobId = true) (otherUuid : isUuid other = true)
    (different : other ≠ exportJobId) (rest : String) :
    hasPrefix (chunkPrefix exportJobId) ("exports/" ++ other ++ rest) =
      false := by
  rw [Bool.eq_false_iff]
  intro isPrefix
  simp only [hasPrefix, chunkPrefix, String.toList_append,
    List.isPrefixOf_iff_prefix, List.append_assoc] at isPrefix
  obtain ⟨tail, equality⟩ := isPrefix
  simp only [List.append_assoc] at equality
  exact different ((exports_append_inj
    ((length_of_isUuid uuid).trans
      (length_of_isUuid otherUuid).symm)).mp equality).1.symm

/-! ## The loop -/

/-- The next token names a key of the page. -/
theorem ObjectStore.token_mem {store : ObjectStore} {initial last : String}
    {token : Option String}
    (next : (if (store.listObjectsV2 initial token).isTruncated then
        (store.listObjectsV2 initial token).nextContinuationToken
      else none) = some last) :
    1000 < (store.keysAfter initial token).length ∧
      ((store.keysAfter initial token).take 1000).getLast? = some last := by
  simp only [listObjectsV2, decide_eq_true_eq, Option.ite_none_right_eq_some]
    at next
  exact next.2

/-- `deleteChunks`, from one turn of its loop on; `kept` lists the keys that a
bulk delete reports errors for. -/
def deleteChunksFrom (exportJobId : String) (kept : List String)
    (store : ObjectStore) (token : Option String) (deleted : Nat) :
    ObjectStore × Nat :=
  let listed := store.listObjectsV2 (chunkPrefix exportJobId) token
  let keys := listed.contents
  let after :=
    if keys.length > 0 then store.deleteObjects keys kept else store
  let total := if keys.length > 0 then deleted + keys.length else deleted
  match _nextEq :
      if listed.isTruncated then listed.nextContinuationToken else none with
  | none => (after, total)
  | some last =>
      if last = "" then (after, total)
      else deleteChunksFrom exportJobId kept after (some last) total
termination_by (store.keysAfter (chunkPrefix exportJobId) token).length
decreasing_by
  have inPage := List.mem_of_getLast? (ObjectStore.token_mem _nextEq).2
  have nonempty : (store.listObjectsV2 (chunkPrefix exportJobId)
      token).contents.length > 0 := List.length_pos_of_mem inPage
  rw [dif_pos nonempty]
  exact ObjectStore.length_keysAfter_lt (List.mem_of_mem_take inPage) _ kept

/-- Removes the per-batch chunk objects once they are no longer needed; the
second component is what it returns. -/
def deleteChunks (exportJobId : String) (kept : List String)
    (store : ObjectStore) : ObjectStore × Nat :=
  deleteChunksFrom exportJobId kept store none 0

namespace ObjectStore

variable {store : ObjectStore} {initial last : String} {token : Option String}

/-- The listing rises strictly when a bucket holds one object for each
key. -/
theorem keysAfter_rising (distinct : (store.objects.map Prod.fst).Nodup) :
    (store.keysAfter initial token).Pairwise (· < ·) := by
  let keys := (store.objects.map Prod.fst).filter (hasPrefix initial)
  have sorted : (keys.insertionSort (· ≤ ·)).Pairwise (· ≤ ·) :=
    List.pairwise_insertionSort _ keys
  have different : (keys.insertionSort (· ≤ ·)).Nodup :=
    (List.perm_insertionSort (· ≤ ·) keys).nodup_iff.mpr
      (distinct.filter _)
  have strictly : (keys.insertionSort (· ≤ ·)).Pairwise (· < ·) :=
    (sorted.and different).imp fun both => lt_of_le_of_ne both.1 both.2
  exact strictly.filter _

/-- What is left of a rising list beyond its page. -/
theorem mem_drop_iff {keys : List String} {size : Nat}
    (rising : keys.Pairwise (· < ·))
    (lastEq : (keys.take size).getLast? = some last) {key : String} :
    key ∈ keys.drop size ↔ key ∈ keys ∧ last < key := by
  have split := List.take_append_drop size keys
  rw [← split] at rising
  obtain ⟨pageRising, _, between⟩ := List.pairwise_append.mp rising
  constructor
  · intro member
    exact ⟨List.mem_of_mem_drop member,
      between last (List.mem_of_getLast? lastEq) key member⟩
  · rintro ⟨member, beyond⟩
    rw [← split] at member
    refine (List.mem_append.mp member).resolve_left fun inPage => ?_
    obtain ⟨before, pageEq⟩ := List.getLast?_eq_some_iff.mp lastEq
    rw [pageEq] at inPage pageRising
    obtain ⟨_, _, below⟩ := List.pairwise_append.mp pageRising
    rcases List.mem_append.mp inPage with earlier | here
    · exact lt_asymm beyond (below key earlier last List.mem_cons_self)
    · rw [List.mem_singleton.mp here] at beyond
      exact lt_irrefl _ beyond

theorem mem_map_deleteObjects {keys kept : List String} {key : String} :
    key ∈ (store.deleteObjects keys kept).objects.map Prod.fst ↔
      key ∈ store.objects.map Prod.fst ∧ (key ∈ keys → key ∈ kept) := by
  simp only [deleteObjects, List.mem_map, List.mem_filter]
  constructor
  · rintro ⟨object, ⟨member, stays⟩, rfl⟩
    refine ⟨⟨object, member, rfl⟩, fun listed => ?_⟩
    simpa [listed] using stays
  · rintro ⟨⟨object, member, rfl⟩, stays⟩
    refine ⟨object, ⟨member, ?_⟩, rfl⟩
    by_cases listed : object.1 ∈ keys
    · simp [stays listed]
    · simp [listed]

theorem distinct_deleteObjects {keys kept : List String}
    (distinct : (store.objects.map Prod.fst).Nodup) :
    ((store.deleteObjects keys kept).objects.map Prod.fst).Nodup :=
  distinct.sublist (List.filter_sublist.map Prod.fst)

/-- Deleting a page leaves the pages after it as they were. -/
theorem keysAfter_deletePage {kept : List String}
    (distinct : (store.objects.map Prod.fst).Nodup) {size : Nat}
    (lastEq : ((store.keysAfter initial token).take size).getLast? =
      some last) :
    (store.deleteObjects ((store.keysAfter initial token).take size)
        kept).keysAfter initial (some last) =
      (store.keysAfter initial token).drop size := by
  have rising : (store.keysAfter initial token).Pairwise (· < ·) :=
    keysAfter_rising distinct
  have risingAfter : ((store.deleteObjects
      ((store.keysAfter initial token).take size) kept).keysAfter initial
        (some last)).Pairwise (· < ·) :=
    keysAfter_rising (distinct_deleteObjects distinct)
  have risingRest := rising.sublist
    (List.drop_sublist size (store.keysAfter initial token))
  apply List.Perm.eq_of_pairwise
    (fun _ _ _ _ below above => absurd below (lt_asymm above)) risingAfter
    risingRest
  rw [List.perm_ext_iff_of_nodup (risingAfter.imp ne_of_lt)
    (risingRest.imp ne_of_lt)]
  intro key
  rw [mem_drop_iff rising lastEq, mem_keysAfter, mem_map_deleteObjects,
    mem_keysAfter]
  have onPage : last ∈ store.keysAfter initial token :=
    List.mem_of_mem_take (List.mem_of_getLast? lastEq)
  obtain ⟨_, _, beyond⟩ := mem_keysAfter.mp onPage
  constructor
  · rintro ⟨⟨stored, _⟩, isPrefix, above⟩
    exact ⟨⟨stored, isPrefix, fun earlier tokenEq =>
      lt_trans (beyond earlier tokenEq) (above last rfl)⟩, above last rfl⟩
  · rintro ⟨⟨stored, isPrefix, after⟩, above⟩
    refine ⟨⟨stored, fun inPage => ?_⟩, isPrefix, fun _ lastIs =>
      Option.some.inj lastIs ▸ above⟩
    have listed : key ∈ store.keysAfter initial token :=
      mem_keysAfter.mpr ⟨stored, isPrefix, after⟩
    have left := (mem_drop_iff rising lastEq).mpr ⟨listed, above⟩
    rw [← List.take_append_drop size (store.keysAfter initial token)]
      at rising
    exact absurd ((List.pairwise_append.mp rising).2.2 key inPage key left)
      (lt_irrefl key)

/-- Two bulk deletes one after the other. -/
theorem deleteObjects_deleteObjects (first second kept : List String) :
    (store.deleteObjects first kept).deleteObjects second kept =
      store.deleteObjects (first ++ second) kept := by
  simp only [deleteObjects, List.filter_filter]
  congr 1
  apply List.filter_congr
  intro object _
  simp only [List.contains_eq_mem, List.mem_append, Bool.decide_or]
  cases decide (object.1 ∈ first) <;> cases decide (object.1 ∈ second) <;>
    cases decide (object.1 ∈ kept) <;> rfl

theorem mem_map_iff {key : String} :
    key ∈ store.objects.map Prod.fst ↔ (store.get? key).isSome = true := by
  rw [get?, List.lookup_isSome_iff, List.mem_map]
  constructor
  · rintro ⟨object, member, rfl⟩
    exact ⟨object, member, beq_self_eq_true _⟩
  · rintro ⟨object, member, same⟩
    exact ⟨object, member, (eq_of_beq same).symm⟩

theorem deleteObjects_nil (kept : List String) :
    store.deleteObjects [] kept = store := by
  simp [deleteObjects]

/-- The last page holds the rest of the listing. -/
theorem take_page (last : (if (store.listObjectsV2 initial token).isTruncated
      then (store.listObjectsV2 initial token).nextContinuationToken
      else none) = none) :
    (store.keysAfter initial token).take 1000 =
      store.keysAfter initial token := by
  apply List.take_of_length_le
  by_contra long
  rw [not_le] at long
  simp only [listObjectsV2, decide_eq_true_eq, if_pos long,
    List.getLast?_eq_none_iff, List.take_eq_nil_iff] at last
  rcases last with impossible | empty
  · cases impossible
  · simp [empty] at long

end ObjectStore

/-- The loop asks for the deletion of the keys listed beyond the token, each of
them once. -/
theorem deleteChunksFrom_eq {exportJobId : String} {kept : List String}
    {store : ObjectStore} {token : Option String} {deleted : Nat}
    (distinct : (store.objects.map Prod.fst).Nodup) :
    deleteChunksFrom exportJobId kept store token deleted =
      (store.deleteObjects
          (store.keysAfter (chunkPrefix exportJobId) token) kept,
        deleted +
          (store.keysAfter (chunkPrefix exportJobId) token).length) := by
  have page : ∀ (store : ObjectStore) (token : Option String)
      (deleted : Nat),
      (if ((store.keysAfter (chunkPrefix exportJobId) token).take
            1000).length > 0 then
          store.deleteObjects ((store.keysAfter (chunkPrefix exportJobId)
            token).take 1000) kept
        else store) =
          store.deleteObjects ((store.keysAfter (chunkPrefix exportJobId)
            token).take 1000) kept ∧
      (if ((store.keysAfter (chunkPrefix exportJobId) token).take
            1000).length > 0 then
          deleted + ((store.keysAfter (chunkPrefix exportJobId)
            token).take 1000).length
        else deleted) =
          deleted + ((store.keysAfter (chunkPrefix exportJobId)
            token).take 1000).length := by
    intro store token deleted
    generalize (store.keysAfter (chunkPrefix exportJobId) token).take 1000 =
      keys
    cases keys with
    | nil => exact ⟨(ObjectStore.deleteObjects_nil kept).symm, rfl⟩
    | cons key rest => exact ⟨rfl, rfl⟩
  fun_induction deleteChunksFrom exportJobId kept store token deleted with
  | case1 store token deleted listed keys after total last =>
      obtain ⟨deletes, counts⟩ := page store token deleted
      have afterEq : after = _ := deletes
      have totalEq : total = _ := counts
      rw [afterEq, totalEq, ObjectStore.take_page last]
  | case2 store token deleted listed keys after total blank =>
      have onPage := List.mem_of_getLast? (ObjectStore.token_mem blank).2
      obtain ⟨_, isPrefix, _⟩ :=
        ObjectStore.mem_keysAfter.mp (List.mem_of_mem_take onPage)
      exact absurd isPrefix (by simp [hasPrefix, chunkPrefix])
  | case3 store token deleted listed keys after total last next blank
      inductionHypothesis =>
      obtain ⟨deletes, counts⟩ := page store token deleted
      have afterEq : after = _ := deletes
      have totalEq : total = _ := counts
      obtain ⟨_, lastEq⟩ := ObjectStore.token_mem next
      rw [afterEq] at inductionHypothesis ⊢
      rw [inductionHypothesis (ObjectStore.distinct_deleteObjects distinct),
        ObjectStore.keysAfter_deletePage distinct lastEq,
        ObjectStore.deleteObjects_deleteObjects, List.take_append_drop,
        totalEq, Nat.add_assoc, ← List.length_append,
        List.take_append_drop]

structure Bucket where
  store : ObjectStore
  distinct : (store.objects.map Prod.fst).Nodup

/-- The number of objects that are gone. -/
def removedFrom (before after : ObjectStore) : Nat :=
  before.objects.countP fun object => (after.get? object.1).isNone

/-- What `deleteChunks` is meant to do, when it returns `deleted`. -/
structure CleansUp (exportJobId : String) (before after : ObjectStore)
    (deleted : Nat) : Prop where
  chunks : ∀ number, 1 ≤ number →
    after.get? (chunkKey exportJobId number) = none
  counted : deleted = removedFrom before after
  files : ∀ other, isUuid other = true →
    after.get? (finalKey other) = before.get? (finalKey other)
  others : ∀ other number, isUuid other = true → other ≠ exportJobId →
    after.get? (chunkKey other number) = before.get? (chunkKey other number)

/-- No bulk delete reports an error for an object under the prefix. -/
def NoneKept (exportJobId : String) (kept : List String)
    (store : ObjectStore) : Prop :=
  ∀ key ∈ store.objects.map Prod.fst,
    hasPrefix (chunkPrefix exportJobId) key = true → key ∉ kept

variable {exportJobId : String} {kept : List String} {store : ObjectStore}

/-- An object goes exactly when its key has the prefix and no error is
reported for it. -/
theorem get?_deleteChunks (distinct : (store.objects.map Prod.fst).Nodup)
    (key : String) :
    (deleteChunks exportJobId kept store).1.get? key =
      if hasPrefix (chunkPrefix exportJobId) key = true ∧ key ∉ kept then none
      else store.get? key := by
  rw [deleteChunks, deleteChunksFrom_eq distinct]
  let listed := store.keysAfter (chunkPrefix exportJobId) none
  split
  · next removed =>
      obtain ⟨isPrefix, notKept⟩ := removed
      cases present : (store.deleteObjects listed kept).get? key with
      | none => rfl
      | some body =>
          have stored := ObjectStore.get?_of_get?_deleteObjects present
          have inListing : key ∈ listed := ObjectStore.mem_keysAfter.mpr
            ⟨ObjectStore.mem_map_iff.mpr (by rw [stored]; rfl), isPrefix,
              fun _ impossible => by cases impossible⟩
          rw [ObjectStore.deleteObjects, ObjectStore.get?,
            ObjectStore.lookup_filter_of_neg
              (fun name => !(listed.contains name && !kept.contains name))
              (by simp [inListing, notKept])] at present
          cases present
  · next stays =>
      by_cases isKept : key ∈ kept
      · exact ObjectStore.lookup_filter_of_pos
          (fun name => !(listed.contains name && !kept.contains name))
          (by simp [isKept])
      · apply ObjectStore.get?_deleteObjects_of_notMem
        intro inListing
        obtain ⟨_, isPrefix, _⟩ := ObjectStore.mem_keysAfter.mp inListing
        exact stays ⟨isPrefix, isKept⟩

theorem deleted_eq (distinct : (store.objects.map Prod.fst).Nodup) :
    (deleteChunks exportJobId kept store).2 =
      store.objects.countP fun object =>
        hasPrefix (chunkPrefix exportJobId) object.1 := by
  rw [deleteChunks, deleteChunksFrom_eq distinct,
    ObjectStore.length_keysAfter, List.countP_map]
  simp [Function.comp_def]

/-- The count is right exactly when no error is reported. -/
theorem counted_iff (distinct : (store.objects.map Prod.fst).Nodup) :
    (deleteChunks exportJobId kept store).2 =
        removedFrom store (deleteChunks exportJobId kept store).1 ↔
      NoneKept exportJobId kept store := by
  have removed : removedFrom store (deleteChunks exportJobId kept store).1 =
      (store.objects.filter fun object =>
        hasPrefix (chunkPrefix exportJobId) object.1).countP fun object =>
          !kept.contains object.1 := by
    rw [removedFrom, List.countP_filter]
    apply List.countP_congr
    intro object member
    have stored : (store.get? object.1).isSome = true :=
      ObjectStore.mem_map_iff.mp (List.mem_map_of_mem member)
    rw [get?_deleteChunks distinct]
    split
    · next gone => simp [gone.1, gone.2]
    · next stays =>
        have there : (store.get? object.1).isNone = false := by
          rw [← Option.not_isSome, stored]
          rfl
        rw [there]
        by_cases isKept : object.1 ∈ kept
        · simp [isKept]
        · have elsewhere : hasPrefix (chunkPrefix exportJobId) object.1 =
              false := by simpa [isKept] using stays
          simp [elsewhere]
  rw [deleted_eq distinct, removed, List.countP_eq_length_filter, eq_comm,
    List.countP_eq_length]
  constructor
  · intro all key member isPrefix
    obtain ⟨object, stored, rfl⟩ := List.mem_map.mp member
    simpa using all object (List.mem_filter.mpr ⟨stored, isPrefix⟩)
  · intro noneKept object member
    obtain ⟨stored, isPrefix⟩ := List.mem_filter.mp member
    simpa using noneKept object.1 (List.mem_map_of_mem stored) isPrefix

/-- For every bucket and every export, `deleteChunks` leaves no chunk of it
and returns the number of objects that are gone, without touching a final file
or a chunk of another export, if and only if no bulk delete reports an error;
and no two batches of any exports share a key. -/
theorem deleteChunks_cleans_iff (bucket : Bucket)
    (uuid : isUuid exportJobId = true) (kept : List String) :
    (CleansUp exportJobId bucket.store
        (deleteChunks exportJobId kept bucket.store).1
        (deleteChunks exportJobId kept bucket.store).2 ↔
      NoneKept exportJobId kept bucket.store) ∧
      ∀ first second firstNumber secondNumber, isUuid first = true →
        isUuid second = true →
        (chunkKey first firstNumber = chunkKey second secondNumber ↔
          first = second ∧ firstNumber = secondNumber) := by
  refine ⟨?_, fun _ _ _ _ firstUuid secondUuid =>
    chunkKey_injective firstUuid secondUuid⟩
  have counts := @counted_iff exportJobId kept bucket.store bucket.distinct
  constructor
  · exact fun cleans => counts.mp cleans.counted
  · intro noneKept
    refine ⟨fun number _ => ?_, counts.mpr noneKept, fun other otherUuid => ?_,
      fun other number otherUuid different => ?_⟩
    · rw [get?_deleteChunks bucket.distinct]
      split
      · rfl
      · next stays =>
          by_contra present
          have stored : chunkKey exportJobId number ∈
              bucket.store.objects.map Prod.fst :=
            ObjectStore.mem_map_iff.mpr
              (Option.isSome_iff_ne_none.mpr present)
          have isPrefix := hasPrefix_chunkKey exportJobId number
          exact stays ⟨isPrefix, noneKept _ stored isPrefix⟩
    · have free : hasPrefix (chunkPrefix exportJobId) (finalKey other) =
          false := by
        by_cases same : other = exportJobId
        · rw [same]
          exact not_hasPrefix_finalKey exportJobId
        · have elsewhere := not_hasPrefix_of_ne uuid otherUuid same
            ("/export-" ++ other ++ ".csv")
          simpa only [finalKey, String.append_assoc] using elsewhere
      rw [get?_deleteChunks bucket.distinct, if_neg (by simp [free])]
    · have free : hasPrefix (chunkPrefix exportJobId)
          (chunkKey other number) = false := by
        have elsewhere := not_hasPrefix_of_ne uuid otherUuid different
          ("/chunks/" ++ padStart (toString number) 8 '0' ++ ".csv")
        simpa only [chunkKey, String.append_assoc] using elsewhere
      rw [get?_deleteChunks bucket.distinct, if_neg (by simp [free])]

def oneChunk : Bucket where
  store := ⟨[(chunkKey smallEnv.exportJobId 1, chunkBytes
    [normaliseRecord (smallRecord 1)])]⟩
  distinct := List.nodup_singleton _

theorem deleteChunks_cleans_iff_oneChunk :
    CleansUp smallEnv.exportJobId oneChunk.store
      (deleteChunks smallEnv.exportJobId [] oneChunk.store).1
      (deleteChunks smallEnv.exportJobId [] oneChunk.store).2 :=
  (deleteChunks_cleans_iff oneChunk (by decide) []).1.mpr
    fun _ _ _ => List.not_mem_nil

/-- `DeleteObjects` answers with an error for the only chunk: `deleteChunks`
returns normally, counts it, and it is still there. -/
theorem keptChunk_counted :
    deleteChunks smallEnv.exportJobId [chunkKey smallEnv.exportJobId 1]
        oneChunk.store = (oneChunk.store, 1) ∧
      ¬ CleansUp smallEnv.exportJobId oneChunk.store
        (deleteChunks smallEnv.exportJobId
          [chunkKey smallEnv.exportJobId 1] oneChunk.store).1
        (deleteChunks smallEnv.exportJobId
          [chunkKey smallEnv.exportJobId 1] oneChunk.store).2 := by
  have outcome : deleteChunks smallEnv.exportJobId
      [chunkKey smallEnv.exportJobId 1] oneChunk.store =
        (oneChunk.store, 1) := by
    rw [deleteChunks, deleteChunksFrom_eq oneChunk.distinct]
    decide +kernel
  refine ⟨outcome, ?_⟩
  rw [outcome]
  intro cleans
  exact absurd (cleans.chunks 1 (by decide)) (by decide +kernel)

section Statements

variable {env : Env} {world : World} {token : Option String} {deleted : Nat}

theorem solo_keeping {index : Nat} {pc : RunPc} {rest : List Action}
    (live : pc.ended = false) :
    (network env).solo index world (.run pc)
        (.call (.keeping kept) :: rest) =
      (network env).solo index (runStep env kept world pc).1
        (.run (runStep env kept world pc).2) rest := by
  simp [Network.solo, network, act, live, runCall]

/-- The statements of one turn of the loop. -/
theorem solo_turn (index : Nat) (outcome : RunOutcome) (kept : List String) :
    let listed :=
      world.store.listObjectsV2 (chunkPrefix env.exportJobId) token
    ∃ count, (network env).solo index world
        (.run (.listChunks outcome token deleted))
        (List.replicate count (.call (.keeping kept))) =
      some ({ world with
          store :=
            if listed.contents.length > 0 then
              world.store.deleteObjects listed.contents kept
            else world.store },
        .run (.nextPage outcome
          (if listed.isTruncated then listed.nextContinuationToken else none)
          (if listed.contents.length > 0 then
            deleted + listed.contents.length else deleted))) := by
  intro listed
  by_cases nonempty : listed.contents.length > 0
  · refine ⟨2, ?_⟩
    simp only [if_pos nonempty]
    rw [List.replicate_succ, List.replicate_one, solo_keeping rfl]
    simp only [runStep]
    rw [if_pos nonempty, solo_keeping rfl, Network.solo_nil]
    rfl
  · refine ⟨1, ?_⟩
    simp only [if_neg nonempty]
    rw [List.replicate_one, solo_keeping rfl]
    simp only [runStep]
    rw [if_neg nonempty, Network.solo_nil]

/-- The statements of a run after its last write of the status are those of
`deleteChunks`. -/
theorem solo_deleteChunks (index : Nat) (outcome : RunOutcome)
    (kept : List String) :
    ∃ count, (network env).solo index world
        (.run (.listChunks outcome token deleted))
        (List.replicate count (.call (.keeping kept))) =
      some ({ world with
          store := (deleteChunksFrom env.exportJobId kept world.store token
            deleted).1 },
        .run (.returned outcome)) := by
  generalize storeEq : world.store = store
  fun_induction deleteChunksFrom env.exportJobId kept store token deleted
    generalizing world with
  | case1 _ token deleted listed keys after total =>
      rename_i last
      subst storeEq
      obtain ⟨count, turn⟩ :=
        @solo_turn env world token deleted index outcome kept
      have none : (if listed.isTruncated then listed.nextContinuationToken
        else none) = none := last
      rw [none] at turn
      exact ⟨count, turn⟩
  | case2 store token deleted listed keys after total =>
      rename_i blank
      have onPage := List.mem_of_getLast? (ObjectStore.token_mem blank).2
      obtain ⟨_, isPrefix, _⟩ :=
        ObjectStore.mem_keysAfter.mp (List.mem_of_mem_take onPage)
      exact absurd isPrefix (by simp [hasPrefix, chunkPrefix])
  | case3 _ token deleted listed keys after total last next blank =>
      rename_i inductionHypothesis
      subst storeEq
      obtain ⟨count, turn⟩ :=
        @solo_turn env world token deleted index outcome kept
      have some : (if listed.isTruncated then listed.nextContinuationToken
        else none) = some last := next
      rw [some, RunPc.nextPage, if_neg blank] at turn
      obtain ⟨rest, turns⟩ :=
        @inductionHypothesis { world with store := after } rfl
      refine ⟨count + rest, ?_⟩
      rw [List.replicate_add, Network.solo_append, turn]
      exact turns

end Statements

end ExportVault
