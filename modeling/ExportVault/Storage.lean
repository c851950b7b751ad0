import ExportVault.Builtins
import Mathlib.Data.List.Sort
import Mathlib.Data.String.Basic

/-!
# Object storage

`server/src/services/storage.service.ts`: the keys of the program's objects
and the S3 operations it calls.  Writes are atomic and a read returns the last
completed write.
-/

namespace ExportVault

abbrev Bytes := ByteArray

/-- Two bodies are compared byte by byte. -/
instance : DecidableEq Bytes := fun first second =>
  decidable_of_iff (first.data = second.data) ByteArray.ext_iff.symm

/-- `Buffer.from(text, 'utf8')`. -/
def utf8 (text : String) : Bytes :=
  text.toUTF8

@[simp]
theorem utf8_append (first second : String) :
    utf8 (first ++ second) = utf8 first ++ utf8 second :=
  String.toByteArray_append

def chunkKey (exportJobId : String) (batchNumber : Int) : String :=
  "exports/" ++ exportJobId ++ "/chunks/" ++
    padStart (toString batchNumber) 8 '0' ++ ".csv"

def finalKey (exportJobId : String) : String :=
  "exports/" ++ exportJobId ++ "/export-" ++ exportJobId ++ ".csv"

/-- The prefix `deleteChunks` lists. -/
def chunkPrefix (exportJobId : String) : String :=
  "exports/" ++ exportJobId ++ "/chunks/"

def hasPrefix (initial key : String) : Bool :=
  initial.toList.isPrefixOf key.toList

theorem hasPrefix_chunkKey (exportJobId : String) (batchNumber : Int) :
    hasPrefix (chunkPrefix exportJobId) (chunkKey exportJobId batchNumber) =
      true := by
  simp only [hasPrefix, chunkPrefix, chunkKey, String.toList_append,
    List.isPrefixOf_iff_prefix, List.append_assoc]
  simp only [List.prefix_append_right_inj]
  exact List.prefix_append _ _

theorem not_hasPrefix_finalKey (exportJobId : String) :
    hasPrefix (chunkPrefix exportJobId) (finalKey exportJobId) = false := by
  rw [Bool.eq_false_iff]
  intro isPrefix
  simp only [hasPrefix, chunkPrefix, finalKey, String.toList_append,
    List.isPrefixOf_iff_prefix, List.append_assoc,
    List.prefix_append_right_inj] at isPrefix
  -- the second characters differ
  obtain ⟨rest, equality⟩ := isPrefix
  simp at equality

theorem chunkKey_ne_finalKey (exportJobId : String) (batchNumber : Int) :
    chunkKey exportJobId batchNumber ≠ finalKey exportJobId := by
  intro same
  have isPrefix := hasPrefix_chunkKey exportJobId batchNumber
  rw [same, not_hasPrefix_finalKey] at isPrefix
  exact Bool.false_ne_true isPrefix

/-- Padding with zeros does not change the number a numeral stands for. -/
theorem ofDigitChars_padStart (value width : Nat) :
    Nat.ofDigitChars 10 (padStart (toString value) width '0').toList 0 =
      value := by
  have text : (toString value).toList = Nat.toDigits 10 value :=
    Nat.toList_repr
  rw [padStart, String.toList_ofList, Nat.ofDigitChars_append,
    Nat.ofDigitChars_replicate_zero, Nat.mul_zero, text,
    Nat.ofDigitChars_ten_toDigits]

/-- Different batches have different keys, also beyond eight digits. -/
theorem chunkKey_inj {exportJobId : String} {first second : Int}
    (firstNonneg : 0 ≤ first) (secondNonneg : 0 ≤ second) :
    chunkKey exportJobId first = chunkKey exportJobId second ↔
      first = second := by
  constructor
  · intro same
    obtain ⟨firstSize, rfl⟩ := Int.eq_ofNat_of_zero_le firstNonneg
    obtain ⟨secondSize, rfl⟩ := Int.eq_ofNat_of_zero_le secondNonneg
    have digits :
        padStart (toString firstSize) 8 '0' =
          padStart (toString secondSize) 8 '0' := by
      have lists := congrArg String.toList same
      simp only [chunkKey, String.toList_append, List.append_assoc,
        List.append_cancel_left_eq, List.append_cancel_right_eq] at lists
      exact String.toList_inj.mp lists
    have values := congrArg (fun text : String =>
      Nat.ofDigitChars 10 text.toList 0) digits
    simp only [ofDigitChars_padStart] at values
    rw [values]
  · rintro rfl
    rfl

/-- The content of the bucket. -/
structure ObjectStore where
  objects : List (String × Bytes)
  deriving DecidableEq

namespace ObjectStore

def get? (store : ObjectStore) (key : String) : Option Bytes :=
  store.objects.lookup key

/-- `PutObject`, and the completion of a multipart upload. -/
def put (store : ObjectStore) (key : String) (body : Bytes) : ObjectStore :=
  ⟨(key, body) :: store.objects.filter fun object => object.1 ≠ key⟩

/-- `DeleteObjects`: the listed keys go, except those for which the response
reports an error. -/
def deleteObjects (store : ObjectStore) (keys kept : List String) :
    ObjectStore :=
  ⟨store.objects.filter fun object =>
    !(keys.contains object.1 && !kept.contains object.1)⟩

/-- What `ListObjectsV2` answers. -/
structure Listing where
  contents : List String
  isTruncated : Bool
  nextContinuationToken : Option String
  deriving DecidableEq, Repr

def keysAfter (store : ObjectStore) (initial : String)
    (token : Option String) : List String :=
  (((store.objects.map Prod.fst).filter (hasPrefix initial)).insertionSort
    (· ≤ ·)).filter fun key =>
      match token with
      | none => true
      | some last => decide (last < key)

/-- One page of `ListObjectsV2`: at most 1000 keys. -/
def listObjectsV2 (store : ObjectStore) (initial : String)
    (token : Option String) : Listing :=
  let keys := store.keysAfter initial token
  let contents := keys.take 1000
  { contents := contents
    isTruncated := decide (1000 < keys.length)
    nextContinuationToken :=
      if 1000 < keys.length then contents.getLast? else none }

theorem lookup_filter_of_pos {objects : List (String × Bytes)}
    (keep : String → Bool) {key : String} (kept : keep key = true) :
    (objects.filter fun object => keep object.1).lookup key =
      objects.lookup key := by
  induction objects with
  | nil => rfl
  | cons object rest inductionHypothesis =>
      obtain ⟨name, body⟩ := object
      by_cases same : key = name
      · subst same
        simp [kept]
      · have different : (key == name) = false := by simpa using same
        by_cases nameKept : keep name = true
        · simp [nameKept, List.lookup_cons, different, inductionHypothesis]
        · simp [nameKept, List.lookup_cons, different, inductionHypothesis]

theorem lookup_filter_of_neg {objects : List (String × Bytes)}
    (keep : String → Bool) {key : String} (dropped : keep key = false) :
    (objects.filter fun object => keep object.1).lookup key = none := by
  rw [List.lookup_eq_none_iff]
  intro object member
  have kept := (List.mem_filter.mp member).2
  simp only [bne_iff_ne, ne_eq]
  rintro rfl
  rw [dropped] at kept
  exact Bool.false_ne_true kept

@[simp]
theorem get?_put_self (store : ObjectStore) (key : String) (body : Bytes) :
    (store.put key body).get? key = some body := by
  simp [get?, put]

@[simp]
theorem get?_put_of_ne (store : ObjectStore) {key other : String}
    (body : Bytes) (different : other ≠ key) :
    (store.put key body).get? other = store.get? other := by
  have notSame : (other == key) = false := by simpa using different
  rw [get?, get?, put, List.lookup_cons, notSame]
  exact lookup_filter_of_pos (fun name => decide (name ≠ key))
    (by simpa using different)

theorem get?_deleteObjects_of_notMem (store : ObjectStore)
    {keys kept : List String} {key : String} (absent : key ∉ keys) :
    (store.deleteObjects keys kept).get? key = store.get? key := by
  apply lookup_filter_of_pos
    (fun name => !(keys.contains name && !kept.contains name))
  simp [absent]

/-- Deleting objects never changes the content of one that remains. -/
theorem get?_of_get?_deleteObjects {store : ObjectStore}
    {keys kept : List String} {key : String} {body : Bytes}
    (present : (store.deleteObjects keys kept).get? key = some body) :
    store.get? key = some body := by
  let keep := fun name => !(keys.contains name && !kept.contains name)
  by_cases isKept : keep key = true
  · rwa [deleteObjects, get?,
      lookup_filter_of_pos keep isKept] at present
  · rw [deleteObjects, get?, lookup_filter_of_neg keep
      (by simpa using isKept)] at present
    exact absurd present (by simp)

theorem mem_keysAfter {store : ObjectStore} {initial key : String}
    {token : Option String} :
    key ∈ store.keysAfter initial token ↔
      key ∈ store.objects.map Prod.fst ∧ hasPrefix initial key = true ∧
        ∀ last, token = some last → last < key := by
  rw [keysAfter, List.mem_filter, List.mem_insertionSort, List.mem_filter,
    and_assoc]
  cases token <;> simp

/-- The keys listed beyond a token, counted. -/
theorem length_keysAfter (store : ObjectStore) (initial : String)
    (token : Option String) :
    (store.keysAfter initial token).length =
      (store.objects.map Prod.fst).countP fun key =>
        (match token with
          | none => true
          | some last => decide (last < key)) && hasPrefix initial key := by
  rw [keysAfter, ← List.countP_eq_length_filter,
    (List.perm_insertionSort _ _).countP_eq, List.countP_filter]
  cases token <;> rfl

/-- A listing beyond a key that was listed is shorter, also after a
deletion. -/
theorem length_keysAfter_lt {store : ObjectStore} {initial last : String}
    {token : Option String} (member : last ∈ store.keysAfter initial token)
    (keys kept : List String) :
    ((store.deleteObjects keys kept).keysAfter initial (some last)).length <
      (store.keysAfter initial token).length := by
  obtain ⟨_, _, beyond⟩ := mem_keysAfter.mp member
  have fewer : ((store.deleteObjects keys kept).keysAfter initial
      (some last)).length ≤ (store.keysAfter initial (some last)).length := by
    rw [length_keysAfter, length_keysAfter]
    exact (List.filter_sublist.map Prod.fst).countP_le
  have further : store.keysAfter initial (some last) =
      (store.keysAfter initial token).filter fun key =>
        decide (last < key) := by
    rw [keysAfter, keysAfter, List.filter_filter]
    apply List.filter_congr
    intro key _
    cases token with
    | none => simp
    | some earlier =>
        by_cases later : last < key
        · simp [later, lt_trans (beyond earlier rfl) later]
        · simp [later]
  rw [further] at fewer
  refine lt_of_le_of_lt fewer
    (List.length_filter_lt_length_iff_exists.mpr ⟨last, member, ?_⟩)
  simp

/-- Only keys with the prefix are listed. -/
theorem hasPrefix_of_mem_listObjectsV2 {store : ObjectStore}
    {initial key : String} {token : Option String}
    (member : key ∈ (store.listObjectsV2 initial token).contents) :
    hasPrefix initial key = true := by
  have listed : key ∈ store.keysAfter initial token :=
    List.mem_of_mem_take member
  have sorted := (List.mem_filter.mp listed).1
  rw [List.mem_insertionSort] at sorted
  exact (List.mem_filter.mp sorted).2

end ObjectStore

end ExportVault
