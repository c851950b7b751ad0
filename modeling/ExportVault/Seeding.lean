import ExportVault.Accounts
import ExportVault.Snapshot
import ExportVault.Vault
import Mathlib.Data.List.Dedup

/-!
# Generated records

The generator of `server/src/scripts/generateTestData.ts`, one statement at a
time, on a `records` table with its sequence and its unique index.  Generators
may run side by side, fail at any call and die; the table still holds the
records of the first indices, once each and in the order of their ids
(`seeded_consecutive`), and a generator that meets nobody brings it to its
target (`seeding_completes`).  The digest and the names `faker` draws are
parameters.
-/

namespace ExportVault

open Interleaving

/-- SHA-256 in hexadecimal digits, and the first and last name drawn for the
record of a position of a run. -/
structure SeedLibrary where
  sha256Hex : String → String
  person : Nat → String × String

def isLowerHex (char : Char) : Bool :=
  char.isDigit || "abcdef".toList.contains char

def isDigest (text : String) : Bool :=
  text.toList.length = 64 && text.toList.all isLowerHex

def categories : List String :=
  ["billing", "analytics", "compliance", "logistics", "marketing",
    "operations", "research", "support"]

def statuses : List String :=
  ["active", "pending", "archived", "suspended", "closed"]

/-- `text.slice(first, last)` of a list of characters. -/
def sliceChars (text : List Char) (first last : Nat) : List Char :=
  (text.drop first).take (last - first)

/-- `parseInt(digit, 16)`, with zero for what is no digit, as `&` takes it. -/
def parseHexDigit (char : Char) : Nat :=
  "0123456789abcdef".toList.findIdx (· = char.toLower) % 16

/-- The digit of the variant: `(parseInt(digit, 16) & 0x3) | 0x8`. -/
def variantDigit (digit : List Char) : Char :=
  let value := match digit with
    | char :: _ => parseHexDigit char
    | [] => 0
  "0123456789abcdef".toList.getD ((value &&& 3) ||| 8) '0'

def deterministicUuid (library : SeedLibrary) (index : Nat) : String :=
  let hex :=
    (library.sha256Hex ("exportvault-record-" ++ toString index)).toList
  String.ofList
    (sliceChars hex 0 8 ++ '-' :: (sliceChars hex 8 12 ++
      '-' :: ('4' :: sliceChars hex 13 16 ++
        '-' :: (variantDigit (sliceChars hex 16 17) :: sliceChars hex 17 20 ++
          '-' :: sliceChars hex 20 32))))

/-- Every 50th row gets a name that would break a naive CSV writer. -/
def hostileName (index : Nat) (base : String) : String :=
  if index % 250 = 0 then base ++ ", Jr."
  else if index % 250 = 50 then base ++ " \"The Exporter\""
  else if index % 250 = 100 then base ++ "\nSecond Line"
  else if index % 250 = 150 then base ++ " — Ünïcødé ✅"
  else if index % 250 = 200 then "\"" ++ base ++ "\", \"alias\""
  else base

/-- The record of an index, with the names drawn at a position of the run; the
database gives it its id. -/
def buildRecord (library : SeedLibrary) (index position : Nat) :
    RawRecordRow :=
  let firstName := (library.person position).1
  let lastName := (library.person position).2
  let mailbox := toLowerCase (firstName ++ "." ++ lastName ++ "." ++
    toString index)
  let createdAt : Int := 1704067200000 + index * 60000
  { id := 0
    externalId := deterministicUuid library index
    name := hostileName index (firstName ++ " " ++ lastName)
    email := String.ofList (mailbox.toList.filter fun char =>
      ('a' ≤ char && char ≤ 'z') || char.isDigit || char = '.') ++
        "@example.com"
    category := categories[index % categories.length]?
    amount := some (.text (toFixed2 ((index * 7919 % 1000000 : Nat) : Int)))
    status := statuses[index % statuses.length]?
    createdAt := createdAt
    updatedAt := createdAt }

/-- The `records` table with its sequence and the unique index of its external
ids. -/
structure SeedTable where
  table : RecordTable
  nextval : Int
  begun : 1 ≤ nextval
  below : ∀ row ∈ table.rows, row.id < nextval
  unique : (table.rows.map RawRecordRow.externalId).Nodup

namespace SeedTable

/-- `TRUNCATE TABLE records RESTART IDENTITY`. -/
def truncated : SeedTable where
  table := RecordsHeap.empty.visible
  nextval := RecordsHeap.empty.nextval
  begun := RecordsHeap.empty.begun
  below _ member := absurd member List.not_mem_nil
  unique := List.nodup_nil

def taken (seed : SeedTable) (row : RawRecordRow) : Bool :=
  (seed.table.rows.map RawRecordRow.externalId).contains row.externalId

/-- The sequence has given a value away. -/
def drawNextval (seed : SeedTable) (value : Int)
    (onwards : seed.nextval ≤ value) : SeedTable :=
  { seed with
    nextval := value
    begun := le_trans seed.begun onwards
    below := fun row member => lt_of_lt_of_le (seed.below row member) onwards }

/-- A row whose external id is not taken goes last, with the next id. -/
def append (seed : SeedTable) (row : RawRecordRow)
    (left : isBigSerial seed.nextval) (free : seed.taken row = false) :
    SeedTable where
  table :=
    { rows := seed.table.rows ++ [{ row with id := seed.nextval }]
      ascending := List.pairwise_append.mpr
        ⟨seed.table.ascending, List.pairwise_singleton _ _,
          fun earlier member last isLast => by
            rw [List.mem_singleton.mp isLast]
            exact seed.below earlier member⟩
      drawn := fun other member => by
        rcases List.mem_append.mp member with earlier | isLast
        · exact seed.table.drawn other earlier
        · rw [List.mem_singleton.mp isLast]
          exact left }
  nextval := seed.nextval + 1
  begun := le_trans seed.begun (by omega)
  below other member := by
    rcases List.mem_append.mp member with earlier | isLast
    · exact lt_trans (seed.below other earlier) (lt_add_one _)
    · rw [List.mem_singleton.mp isLast]
      exact lt_add_one _
  unique := by
    rw [List.map_append, List.map_singleton]
    refine List.nodup_append.mpr
      ⟨seed.unique, List.nodup_singleton _, ?_⟩
    rintro _ member _ last rfl
    rw [List.mem_singleton.mp last] at member
    rw [taken, List.contains_iff_mem.mpr member] at free
    cases free

/-- A row of `INSERT … ON CONFLICT DO NOTHING`: a row that conflicts draws an
id all the same. -/
def insertRow (seed : SeedTable) (row : RawRecordRow)
    (left : isBigSerial seed.nextval) : SeedTable :=
  match free : seed.taken row with
  | true => seed.drawNextval (seed.nextval + 1) (by omega)
  | false => seed.append row left free

/-- `createMany({ data, skipDuplicates: true })` with the number of rows it
inserted; the statement fails when the sequence is used up. -/
def createMany : SeedTable → List RawRecordRow → Option (SeedTable × Nat)
  | seed, [] => some (seed, 0)
  | seed, row :: rest =>
      if left : isBigSerial seed.nextval then
        (createMany (seed.insertRow row left) rest).map fun result =>
          (result.1, (if seed.taken row then 0 else 1) + result.2)
      else none

/-- The sequence has reached its maximum. -/
def exhausted (seed : SeedTable) : SeedTable :=
  seed.drawNextval (max seed.nextval 9223372036854775808) (le_max_left _ _)

end SeedTable

/-- `INSERT_CHUNK`. -/
def insertChunk : Nat := 2000

structure SeedOptions where
  target : Nat
  reset : Bool
  deriving DecidableEq, Repr

structure SeedRun where
  target : Nat
  existing : Nat
  toInsert : Nat
  deriving DecidableEq, Repr

/-- The next statement of `generateTestData`. -/
inductive SeedPc where
  | truncate (target : Nat)
  | count (target : Nat)
  | createMany (run : SeedRun) (startIndex inserted : Nat)
  | countTotal (target inserted : Nat)
  | countDistinct (target inserted total : Nat)
  | maxId (target inserted total distinct : Nat)
  | returned (inserted total : Nat)
  | threw (error : AppError)
  | crashed
  deriving DecidableEq, Repr

def SeedPc.ended : SeedPc → Bool
  | .returned _ _ => true
  | .threw _ => true
  | .crashed => true
  | _ => false

def SeedOptions.begin (options : SeedOptions) : SeedPc :=
  if options.reset then .truncate options.target else .count options.target

def SeedPc.loopTop (run : SeedRun) (startIndex inserted : Nat) : SeedPc :=
  if startIndex < run.toInsert then .createMany run startIndex inserted
  else .countTotal run.target inserted

/-- The rows of the next statement. -/
def seedBatch (library : SeedLibrary) (run : SeedRun) (startIndex : Nat) :
    List RawRecordRow :=
  (List.range (min insertChunk (run.toInsert - startIndex))).map fun i =>
    buildRecord library (run.existing + startIndex + i) (startIndex + i)

def insertMismatch (startIndex size count : Nat) : AppError :=
  { message := "Insert verification failed at index " ++ toString startIndex ++
      ": sent " ++ toString size ++ " rows, database accepted " ++
        toString count }

def tooFewRows (target total : Nat) : AppError :=
  { message := "Post-insert verification FAILED: expected at least " ++
      toString target ++ " rows, found " ++ toString total }

def repeatedIds (total distinct : Nat) : AppError :=
  { message := "Post-insert verification FAILED: " ++ toString total ++
      " rows but only " ++ toString distinct ++
        " distinct external_id values" }

/-- The checks after the last statement. -/
def seedVerdict (target inserted total distinct : Nat) : SeedPc :=
  if total < target then .threw (tooFewRows target total)
  else if distinct ≠ total then .threw (repeatedIds total distinct)
  else .returned inserted total

/-- One statement of a run. -/
def generateStep (library : SeedLibrary) (seed : SeedTable) :
    SeedPc → SeedTable × SeedPc
  | .truncate target => (.truncated, .count target)
  | .count target =>
      let existing := seed.table.rows.length
      let toInsert := target - existing
      (seed,
        if toInsert = 0 then .returned 0 existing
        else .loopTop ⟨target, existing, toInsert⟩ 0 0)
  | .createMany run startIndex inserted =>
      let batch := seedBatch library run startIndex
      match seed.createMany batch with
      | none => (seed.exhausted, .threw (callError "sequence exhausted"))
      | some (after, count) =>
          (after,
            if count ≠ batch.length then
              .threw (insertMismatch startIndex batch.length count)
            else .loopTop run (startIndex + insertChunk) (inserted + count))
  | .countTotal target inserted =>
      (seed, .countDistinct target inserted seed.table.rows.length)
  | .countDistinct target inserted total =>
      (seed, .maxId target inserted total
        (seed.table.rows.map RawRecordRow.externalId).dedup.length)
  | .maxId target inserted total distinct =>
      (seed, seedVerdict target inserted total distinct)
  | pc => (seed, pc)

/-- A statement under a fault. -/
def generateCall (library : SeedLibrary) (seed : SeedTable) (pc : SeedPc) :
    Fault → SeedTable × SeedPc
  | .refused message => (seed, .threw (callError message))
  | .lost message =>
      ((generateStep library seed pc).1, .threw (callError message))
  | _ => generateStep library seed pc

/-! ## The system -/

inductive SeedProc where
  | idle
  | generating (pc : SeedPc)
  deriving DecidableEq, Repr

inductive SeedAction where
  | start (options : SeedOptions)
  | call (fault : Fault)
  | crash
  deriving DecidableEq, Repr

/-- What one process does next. -/
def seedAct (library : SeedLibrary) (seed : SeedTable) :
    SeedProc → SeedAction → Option (SeedTable × SeedProc)
  | .idle, .start options => some (seed, .generating options.begin)
  | .generating pc, .call fault =>
      if pc.ended then none
      else
        match generateCall library seed pc fault with
        | (after, next) => some (after, .generating next)
  | .generating pc, .crash =>
      if pc.ended then none else some (seed, .generating .crashed)
  | _, _ => none

/-- Generators side by side; nobody else writes the table. -/
def seedNetwork (library : SeedLibrary) :
    Network SeedTable SeedProc SeedAction Empty where
  act _ := seedAct library
  env _ change := nomatch change

def seedMachine (library : SeedLibrary) :
    Machine (Config SeedTable SeedProc) (Event SeedAction Empty) :=
  (seedNetwork library).machine

/-- The table is empty, and no generator has started. -/
structure Unseeded (config : Config SeedTable SeedProc) : Prop where
  noRows : config.shared.table.rows = []
  idle : ∀ index, config.procs index = .idle

theorem length_sliceChars {text : List Char} {first last : Nat}
    (long : last ≤ text.length) :
    (sliceChars text first last).length = last - first := by
  rw [sliceChars, List.length_take, List.length_drop]
  omega

theorem mem_of_mem_sliceChars {text : List Char} {first last : Nat}
    {char : Char} (member : char ∈ sliceChars text first last) :
    char ∈ text :=
  List.mem_of_mem_drop (List.mem_of_mem_take member)

theorem isLowerHex_variantDigit (digit : List Char) :
    isLowerHex (variantDigit digit) = true := by
  have all : ∀ value < 16, isLowerHex
      ("0123456789abcdef".toList.getD ((value &&& 3) ||| 8) '0') = true := by
    decide
  cases digit with
  | nil => exact all 0 (by decide)
  | cons char rest => exact all _ (Nat.mod_lt _ (by decide))

/-- A run of hexadecimal digits between two dashes. -/
theorem isUuid_digits {digits : List Char} {start : Nat}
    (hex : ∀ char ∈ digits, isLowerHex char = true)
    (clear : ∀ position, start ≤ position →
      position < start + digits.length → dashAt position = false) :
    ((digits.zipIdx start).all fun entry =>
      if dashAt entry.2 then entry.1 = '-' else isHexDigit entry.1) =
        true := by
  rw [List.all_eq_true]
  rintro ⟨char, position⟩ member
  obtain ⟨low, high, isChar⟩ := List.mem_zipIdx member
  have inside : char ∈ digits := by
    rw [isChar]
    exact List.getElem_mem _
  have lower := hex char inside
  have wider : "abcdef".toList ⊆ "abcdefABCDEF".toList := by
    simp [List.subset_def]
  rw [clear position low high]
  simp only [isLowerHex, Bool.or_eq_true, List.contains_iff_mem] at lower
  simp only [isHexDigit, Bool.false_eq_true, if_false, Bool.or_eq_true,
    List.contains_iff_mem]
  exact lower.imp_right fun letter => wider letter

/-- Five groups of digits are the text of a UUID. -/
theorem isUuid_groups {first second third fourth fifth : List Char}
    (lengths : first.length = 8 ∧ second.length = 4 ∧ third.length = 4 ∧
      fourth.length = 4 ∧ fifth.length = 12)
    (hex : ∀ digits ∈ [first, second, third, fourth, fifth],
      ∀ char ∈ digits, isLowerHex char = true) :
    isUuid (String.ofList (first ++ '-' :: (second ++ '-' ::
      (third ++ '-' :: (fourth ++ '-' :: fifth))))) = true := by
  obtain ⟨eight, four, alsoFour, againFour, twelve⟩ := lengths
  have group : ∀ {digits : List Char} {start : Nat},
      digits ∈ [first, second, third, fourth, fifth] →
      (∀ position, start ≤ position → position < start + digits.length →
        dashAt position = false) →
      ((digits.zipIdx start).all fun entry =>
        if dashAt entry.2 then entry.1 = '-' else isHexDigit entry.1) = true :=
    fun member clear => isUuid_digits (hex _ member) clear
  have clear : ∀ position, position < 36 → position ∉ [8, 13, 18, 23] →
      dashAt position = false := by decide
  simp only [isUuid, String.toList_ofList, Bool.and_eq_true,
    decide_eq_true_eq]
  constructor
  · simp [eight, four, alsoFour, againFour, twelve]
  · simp only [List.zipIdx_append, List.zipIdx_cons, List.all_append,
      List.all_cons, Bool.and_eq_true, eight, four, alsoFour, againFour]
    refine ⟨group (by simp) ?_, rfl, group (by simp) ?_, rfl,
      group (by simp) ?_, rfl, group (by simp) ?_, rfl, group (by simp) ?_⟩
    all_goals
      intro position low high
      refine clear position (by omega) ?_
      simp only [List.mem_cons, List.not_mem_nil, or_false]
      omega

/-- What is made of a digest is the text of a UUID. -/
theorem isUuid_deterministicUuid {library : SeedLibrary} {index : Nat}
    (digest : isDigest (library.sha256Hex
      ("exportvault-record-" ++ toString index)) = true) :
    isUuid (deterministicUuid library index) = true := by
  simp only [isDigest, Bool.and_eq_true, decide_eq_true_eq,
    List.all_eq_true] at digest
  obtain ⟨long, lower⟩ := digest
  rw [deterministicUuid]
  generalize (library.sha256Hex
    ("exportvault-record-" ++ toString index)).toList = hex at long lower ⊢
  have hexSlice : ∀ {first last : Nat},
      ∀ char ∈ sliceChars hex first last, isLowerHex char = true :=
    fun char member => lower char (mem_of_mem_sliceChars member)
  have lengths : ∀ {first last : Nat}, last ≤ 64 →
      (sliceChars hex first last).length = last - first :=
    fun within => length_sliceChars (within.trans long.ge)
  have version : ∀ char ∈ '4' :: sliceChars hex 13 16,
      isLowerHex char = true := by
    rintro char (_ | ⟨_, member⟩)
    · decide
    · exact hexSlice char member
  have variant : ∀ char ∈ variantDigit (sliceChars hex 16 17) ::
      sliceChars hex 17 20, isLowerHex char = true := by
    rintro char (_ | ⟨_, member⟩)
    · exact isLowerHex_variantDigit _
    · exact hexSlice char member
  refine isUuid_groups ?_ ?_
  · simp [lengths]
  · simp only [List.mem_cons, List.not_mem_nil, or_false]
    rintro digits (rfl | rfl | rfl | rfl | rfl)
    · exact hexSlice
    · exact hexSlice
    · exact version
    · exact variant
    · exact hexSlice

def SeedLibrary.DistinctUpTo (library : SeedLibrary) (bound : Nat) : Prop :=
  ∀ first second, first < bound → second < bound →
    deterministicUuid library first = deterministicUuid library second →
      first = second

/-- The rows are the records of the first indices, in this order. -/
def Generated (library : SeedLibrary) (rows : List RawRecordRow) : Prop :=
  ∀ index row, rows[index]? = some row →
    ∃ position, row = { buildRecord library index position with id := row.id }

/-- The rows after a statement that inserts records up to an index. -/
structure Seeds (library : SeedLibrary) (before after : SeedTable)
    (upTo : Nat) : Prop where
  generated : Generated library after.table.rows
  length : after.table.rows.length = max before.table.rows.length upTo
  earlier : before.table.rows <+: after.table.rows

section Table

variable {library : SeedLibrary} {bound : Nat} {seed after : SeedTable}
variable {index : Nat}

theorem Generated.nil : Generated library [] := by
  intro index row there
  cases there

theorem taken_iff (distinct : library.DistinctUpTo bound)
    (generated : Generated library seed.table.rows)
    (size : seed.table.rows.length ≤ bound) (within : index < bound)
    (position : Nat) :
    seed.taken (buildRecord library index position) = true ↔
      index < seed.table.rows.length := by
  rw [SeedTable.taken, List.contains_iff_mem, List.mem_map]
  constructor
  · rintro ⟨row, member, same⟩
    obtain ⟨other, inside, there⟩ := List.getElem_of_mem member
    obtain ⟨drawn, isRecord⟩ := generated other row
      (List.getElem?_eq_some_iff.mpr ⟨inside, there⟩)
    rw [isRecord] at same
    exact distinct other index (by omega) within same ▸ inside
  · intro inside
    obtain ⟨drawn, isRecord⟩ := generated index _
      (List.getElem?_eq_getElem inside)
    refine ⟨_, List.getElem_mem inside, ?_⟩
    rw [isRecord]
    rfl

/-- A record whose index is not beyond the next one. -/
theorem seeds_insertRow (distinct : library.DistinctUpTo bound)
    (generated : Generated library seed.table.rows)
    (size : seed.table.rows.length ≤ bound) (within : index < bound)
    (reached : index ≤ seed.table.rows.length)
    (left : isBigSerial seed.nextval) (position : Nat) :
    Seeds library seed
        (seed.insertRow (buildRecord library index position) left)
        (index + 1) ∧
      (seed.insertRow (buildRecord library index position) left).nextval =
        seed.nextval + 1 := by
  have isTaken := taken_iff distinct generated size within position
  rw [SeedTable.insertRow]
  split
  · next taken =>
      have inside := isTaken.mp taken
      refine ⟨⟨generated, ?_, List.prefix_refl _⟩, rfl⟩
      simp only [SeedTable.drawNextval]
      omega
  · next free =>
      have last : index = seed.table.rows.length := by
        by_contra different
        rw [isTaken.mpr (by omega)] at free
        cases free
      refine ⟨⟨?_, ?_, List.prefix_append _ _⟩, rfl⟩
      · intro other row there
        by_cases inside : other < seed.table.rows.length
        · refine generated other row ?_
          rwa [SeedTable.append, List.getElem?_append_left inside] at there
        · rw [SeedTable.append, List.getElem?_append_right (by omega),
            List.getElem?_singleton] at there
          split at there
          · next isLast =>
              obtain rfl := Option.some.inj there
              have here : other = index := by omega
              exact ⟨position, by rw [here]⟩
          · cases there
      · simp only [SeedTable.append, List.length_append, List.length_singleton]
        omega

theorem Seeds.trans {middle : SeedTable} {first second : Nat}
    (earlier : Seeds library seed middle first)
    (later : Seeds library middle after second) (onwards : first ≤ second) :
    Seeds library seed after second where
  generated := later.generated
  length := by
    have before := earlier.length
    have now := later.length
    omega
  earlier := earlier.earlier.trans later.earlier

/-- The records of `size` indices, of which the first is not beyond the next
one: what is not there yet is inserted. -/
theorem seeds_createMany (distinct : library.DistinctUpTo bound)
    {first position size : Nat} (generated : Generated library seed.table.rows)
    (small : seed.table.rows.length ≤ bound) (within : first + size ≤ bound)
    (reached : first ≤ seed.table.rows.length) {count : Nat}
    (inserted : seed.createMany ((List.range size).map fun i =>
      buildRecord library (first + i) (position + i)) = some (after, count)) :
    Seeds library seed after (first + size) ∧
      after.table.rows.length = seed.table.rows.length + count ∧
      after.nextval = seed.nextval + size := by
  induction size generalizing seed first position count with
  | zero =>
      obtain ⟨rfl, rfl⟩ := Prod.mk.inj (Option.some.inj inserted)
      exact ⟨⟨generated, by omega, List.prefix_refl _⟩, rfl, by simp⟩
  | succ size inductionHypothesis =>
      have shifted : ((fun i => buildRecord library (first + i)
          (position + i)) ∘ Nat.succ) = fun i =>
            buildRecord library (first + 1 + i) (position + 1 + i) := by
        funext i
        simp only [Function.comp_apply, Nat.succ_eq_add_one,
          show first + (i + 1) = first + 1 + i by omega,
          show position + (i + 1) = position + 1 + i by omega]
      rw [List.range_succ_eq_map, List.map_cons, List.map_map, shifted,
        SeedTable.createMany] at inserted
      split at inserted
      · next left =>
          obtain ⟨⟨final, rest⟩, insertedRest, same⟩ :=
            Option.map_eq_some_iff.mp inserted
          obtain ⟨rfl, rfl⟩ := Prod.mk.inj same
          have here : first + 0 < bound := by omega
          obtain ⟨one, drawn⟩ := seeds_insertRow distinct generated small here
            (by omega) left (position + 0)
          have isTaken := taken_iff distinct generated small here (position + 0)
          have oneMore := one.length
          obtain ⟨more, length, nextval⟩ := inductionHypothesis one.generated
            (by omega) (by omega) (by omega) insertedRest
          refine ⟨?_, ?_, ?_⟩
          · rw [show first + (size + 1) = first + 1 + size by omega]
            exact one.trans more (by omega)
          · by_cases taken : seed.taken
                (buildRecord library (first + 0) (position + 0)) = true
            · have inside := isTaken.mp taken
              rw [if_pos taken]
              omega
            · have beyond := mt isTaken.mpr taken
              rw [if_neg taken]
              omega
          · rw [nextval, drawn]
            push_cast
            omega
      · cases inserted

/-- The sequence has values for all the rows. -/
theorem createMany_succeeds {rows : List RawRecordRow}
    (room : seed.nextval + rows.length ≤ 9223372036854775808) :
    ∃ result, seed.createMany rows = some result := by
  induction rows generalizing seed with
  | nil => exact ⟨_, rfl⟩
  | cons row rest inductionHypothesis =>
      rw [List.length_cons] at room
      have left : isBigSerial seed.nextval :=
        ⟨seed.begun, by push_cast at room; omega⟩
      have drawn : (seed.insertRow row left).nextval = seed.nextval + 1 := by
        rw [SeedTable.insertRow]
        split <;> rfl
      have roomThen : (seed.insertRow row left).nextval + rest.length ≤
          9223372036854775808 := by
        rw [drawn]
        push_cast at room
        omega
      obtain ⟨result, succeeds⟩ := inductionHypothesis roomThen
      rw [SeedTable.createMany, dif_pos left, succeeds]
      exact ⟨_, rfl⟩

/-! ## Generators side by side -/

/-- What a generator relies on: it does not leave a hole, and it does not go
beyond the bound. -/
def SeedPc.Knows (bound rows : Nat) : SeedPc → Prop
  | .truncate target => target ≤ bound
  | .count target => target ≤ bound
  | .createMany run startIndex _ =>
      run.existing + startIndex ≤ rows ∧
        run.existing + run.toInsert ≤ bound ∧ startIndex < run.toInsert
  | _ => True

theorem SeedPc.Knows.mono {rows more : Nat} {pc : SeedPc}
    (knows : pc.Knows bound rows) (grown : rows ≤ more) :
    pc.Knows bound more := by
  cases pc with
  | createMany run startIndex inserted =>
      exact ⟨knows.1.trans grown, knows.2⟩
  | _ => exact knows

theorem knows_loopTop {run : SeedRun} {startIndex inserted rows : Nat}
    (reached : startIndex < run.toInsert → run.existing + startIndex ≤ rows)
    (within : run.existing + run.toInsert ≤ bound) :
    (SeedPc.loopTop run startIndex inserted).Knows bound rows := by
  rw [SeedPc.loopTop]
  split
  · next more => exact ⟨reached more, within, more⟩
  · trivial

/-- A statement other than `TRUNCATE` keeps the rows there are and leaves the
records of the first indices. -/
theorem generateStep_kept (distinct : library.DistinctUpTo bound)
    (generated : Generated library seed.table.rows)
    (small : seed.table.rows.length ≤ bound) {pc : SeedPc}
    (knows : pc.Knows bound seed.table.rows.length)
    (keeps : ∀ target, pc ≠ .truncate target) :
    let result := generateStep library seed pc
    Generated library result.1.table.rows ∧
      result.1.table.rows.length ≤ bound ∧
      seed.table.rows <+: result.1.table.rows ∧
      result.2.Knows bound result.1.table.rows.length := by
  intro result
  cases pc with
  | truncate target => exact absurd rfl (keeps target)
  | count target =>
      refine ⟨generated, small, List.prefix_refl _, ?_⟩
      simp only [result, generateStep]
      split
      · trivial
      · refine knows_loopTop (fun _ => le_rfl) ?_
        have within : target ≤ bound := knows
        simp only
        omega
  | createMany run startIndex inserted =>
      obtain ⟨reached, within, more⟩ := knows
      simp only [result, generateStep]
      cases inserts : seed.createMany (seedBatch library run startIndex) with
      | none => exact ⟨generated, small, List.prefix_refl _, trivial⟩
      | some pair =>
          obtain ⟨after, count⟩ := pair
          obtain ⟨seeds, _, _⟩ := seeds_createMany distinct generated small
            (by omega) reached inserts
          have length := seeds.length
          refine ⟨seeds.generated, by simp only; omega, seeds.earlier, ?_⟩
          simp only
          split
          · trivial
          · exact knows_loopTop (by simp only [insertChunk] at *; omega) within
  | maxId target inserted total distinct =>
      refine ⟨generated, small, List.prefix_refl _, ?_⟩
      simp only [result, generateStep, seedVerdict]
      repeat' split
      all_goals trivial
  | _ => exact ⟨generated, small, List.prefix_refl _, trivial⟩

/-- A run that meets nobody gets from one statement to another. -/
def Generates (library : SeedLibrary) (source target : SeedTable × SeedPc) :
    Prop :=
  ∃ count, ∀ index, (seedNetwork library).solo index source.1
    (.generating source.2) (List.replicate count (.call .none)) =
      some (target.1, .generating target.2)

theorem Generates.refl (state : SeedTable × SeedPc) :
    Generates library state state :=
  ⟨0, fun _ => rfl⟩

theorem Generates.step {pc : SeedPc} {state : SeedTable × SeedPc}
    (live : pc.ended = false)
    (rest : Generates library (generateStep library seed pc) state) :
    Generates library (seed, pc) state := by
  obtain ⟨count, soloEq⟩ := rest
  refine ⟨count + 1, fun index => ?_⟩
  have moves : (seedNetwork library).act index seed (.generating pc)
      (.call .none) = some ((generateStep library seed pc).1,
        .generating (generateStep library seed pc).2) := by
    simp only [seedNetwork, seedAct, live, Bool.false_eq_true, if_false,
      generateCall]
  rw [List.replicate_succ, Network.solo, moves, Option.bind_some]
  exact soloEq index

theorem Generates.trans {first second third : SeedTable × SeedPc}
    (earlier : Generates library first second)
    (later : Generates library second third) :
    Generates library first third := by
  obtain ⟨count, soloEq⟩ := earlier
  obtain ⟨more, restEq⟩ := later
  refine ⟨count + more, fun index => ?_⟩
  rw [List.replicate_add, Network.solo_append, soloEq index,
    Option.bind_some]
  exact restEq index

/-- The loop inserts what is missing. -/
theorem generates_loop (distinct : library.DistinctUpTo bound)
    (run : SeedRun) (startIndex : Nat)
    (generated : Generated library seed.table.rows)
    (length : seed.table.rows.length =
      run.existing + min startIndex run.toInsert)
    (within : run.existing + run.toInsert ≤ bound)
    (room : seed.nextval + (run.toInsert - min startIndex run.toInsert : Nat) ≤
      9223372036854775808) :
    ∃ after, Seeds library seed after (run.existing + run.toInsert) ∧
      Generates library
        (seed, .loopTop run startIndex (min startIndex run.toInsert))
        (after, .countTotal run.target run.toInsert) := by
  -- every batch leaves fewer rows to insert
  induction remaining : run.toInsert - startIndex using Nat.strong_induction_on
    generalizing seed startIndex with
  | _ remaining inductionHypothesis =>
      rw [SeedPc.loopTop]
      split
      · next more =>
          let size := min insertChunk (run.toInsert - startIndex)
          have sizeEq : size = min insertChunk (run.toInsert - startIndex) :=
            rfl
          have chunk : insertChunk = 2000 := rfl
          have batchLength : (seedBatch library run startIndex).length =
              size := by
            rw [seedBatch, List.length_map, List.length_range]
          have batchRoom : seed.nextval +
              (seedBatch library run startIndex).length ≤
                9223372036854775808 := by
            rw [batchLength]
            omega
          obtain ⟨⟨after, count⟩, inserts⟩ := createMany_succeeds batchRoom
          obtain ⟨seeds, counted, nextval⟩ := seeds_createMany distinct
            generated (by omega) (show run.existing + startIndex + size ≤ bound
              by omega) (by omega) inserts
          have grown := seeds.length
          have all : count = size := by omega
          have sofar : min startIndex run.toInsert + count =
              min (startIndex + insertChunk) run.toInsert := by omega
          have inserted : generateStep library seed (.createMany run startIndex
              (min startIndex run.toInsert)) = (after, .loopTop run
                (startIndex + insertChunk)
                (min (startIndex + insertChunk) run.toInsert)) := by
            simp only [generateStep, inserts, batchLength, ← sofar]
            rw [if_neg (not_not.mpr all)]
          obtain ⟨final, last, goesOn⟩ := inductionHypothesis
            (run.toInsert - (startIndex + insertChunk)) (by omega)
            (startIndex + insertChunk) seeds.generated (by omega) (by omega) rfl
          refine ⟨final, seeds.trans last (by omega), .step rfl ?_⟩
          rw [inserted]
          exact goesOn
      · rw [show min startIndex run.toInsert = run.toInsert by omega]
        exact ⟨seed, ⟨generated, by omega, List.prefix_refl _⟩, .refl _⟩

/-- A run without `--reset` brings the table to its target. -/
theorem generates_count (distinct : library.DistinctUpTo bound)
    {target : Nat} (generated : Generated library seed.table.rows)
    (within : target ≤ bound)
    (room : seed.nextval + target ≤ 9223372036854775808) :
    ∃ after, Seeds library seed after target ∧
      Generates library (seed, .count target)
        (after, .returned (target - seed.table.rows.length)
          (max seed.table.rows.length target)) := by
  let existing := seed.table.rows.length
  have existingEq : existing = seed.table.rows.length := rfl
  by_cases missing : target - existing = 0
  · refine ⟨seed, ⟨generated, by omega, List.prefix_refl _⟩,
      .step rfl ?_⟩
    have goesOn : generateStep library seed (.count target) =
        (seed, .returned 0 existing) := by
      simp only [generateStep, ← existingEq, missing, if_true]
    rw [goesOn, ← existingEq, missing, show max existing target = existing by
      omega]
    exact .refl _
  · let run : SeedRun := ⟨target, existing, target - existing⟩
    have toInsert : run.toInsert = target - existing := rfl
    have found : run.existing = existing := rfl
    obtain ⟨after, seeds, goesOn⟩ := generates_loop distinct run 0 generated
      (by omega) (by omega) (by omega)
    have length := seeds.length
    have total : after.table.rows.length = target := by omega
    have distinctIds : (after.table.rows.map
        RawRecordRow.externalId).dedup.length = target := by
      rw [List.Nodup.dedup after.unique, List.length_map, total]
    have begins : generateStep library seed (.count target) =
        (seed, .loopTop run 0 (min 0 run.toInsert)) := by
      simp only [generateStep, ← existingEq, if_neg missing, run, Nat.zero_min]
    have verdict : seedVerdict target run.toInsert target target =
        .returned run.toInsert target := by
      rw [seedVerdict, if_neg (lt_irrefl _), if_neg (not_not.mpr rfl)]
    refine ⟨after, ⟨seeds.generated, by omega, seeds.earlier⟩,
      .step rfl (begins ▸ goesOn.trans ?_)⟩
    rw [show max seed.table.rows.length target = target by omega]
    refine .step rfl (.step rfl (.step rfl ?_))
    simp only [generateStep, total, distinctIds]
    exact verdict ▸ .refl _

end Table

/-- A `TRUNCATE` does not come between the statements of another generator's
loop, and no target is beyond the bound. -/
def SeedingAllowed (bound : Nat) (config : Config SeedTable SeedProc) :
    Event SeedAction Empty → Prop
  | .act _ (.start options) => options.target ≤ bound
  | .act index (.call _) =>
      ∀ target, config.procs index = .generating (.truncate target) →
        ∀ other run startIndex inserted, config.procs other ≠
          .generating (.createMany run startIndex inserted)
  | _ => True

/-- The table has the records of the first indices, and every generator knows
where it is. -/
structure Seeded (library : SeedLibrary) (bound : Nat)
    (config : Config SeedTable SeedProc) : Prop where
  generated : Generated library config.shared.table.rows
  small : config.shared.table.rows.length ≤ bound
  knows : ∀ index pc, config.procs index = .generating pc →
    pc.Knows bound config.shared.table.rows.length

section Histories

variable {library : SeedLibrary} {bound : Nat}
variable {source target config next : Config SeedTable SeedProc}
variable {events : List (Event SeedAction Empty)}
variable {event : Event SeedAction Empty}

/-- What one process leaves, and what the others may rely on. -/
theorem Seeded.update (seeded : Seeded library bound config) {index : Nat}
    {shared : SeedTable} {proc : SeedProc}
    (generated : Generated library shared.table.rows)
    (small : shared.table.rows.length ≤ bound)
    (own : ∀ pc, proc = .generating pc →
      pc.Knows bound shared.table.rows.length)
    (others : ∀ other pc, other ≠ index →
      config.procs other = .generating pc →
        pc.Knows bound config.shared.table.rows.length →
          pc.Knows bound shared.table.rows.length) :
    Seeded library bound
      ⟨shared, Function.update config.procs index proc⟩ where
  generated := generated
  small := small
  knows other pc here := by
    by_cases same : other = index
    · subst same
      exact own pc ((Function.update_self ..).symm.trans here)
    · have before : config.procs other = .generating pc :=
        (Function.update_of_ne same ..).symm.trans here
      exact others other pc same before (seeded.knows other pc before)

/-- A statement under a fault. -/
theorem Seeded.call (seeded : Seeded library bound config)
    (distinct : library.DistinctUpTo bound) {index : Nat} {pc : SeedPc}
    (here : config.procs index = .generating pc) (fault : Fault)
    (allowed : SeedingAllowed bound config (.act index (.call fault))) :
    Seeded library bound
      ⟨(generateCall library config.shared pc fault).1,
        Function.update config.procs index
          (.generating (generateCall library config.shared pc fault).2)⟩ := by
  have knows := seeded.knows index pc here
  -- after the statement's effect the run goes on or stops with an error
  have effect : ∀ following : SeedPc,
      (following = (generateStep library config.shared pc).2 ∨
        ∃ error, following = .threw error) →
      Seeded library bound
        ⟨(generateStep library config.shared pc).1,
          Function.update config.procs index (.generating following)⟩ := by
    intro following goesOn
    by_cases truncates : ∃ wanted, pc = .truncate wanted
    · obtain ⟨wanted, rfl⟩ := truncates
      refine seeded.update .nil (Nat.zero_le _) ?_ ?_
      · rintro _ ⟨⟩
        rcases goesOn with rfl | ⟨error, rfl⟩
        · exact knows
        · trivial
      · intro other otherPc _ there otherKnows
        cases otherPc with
        | createMany run startIndex inserted =>
            exact absurd there
              (allowed wanted here other run startIndex inserted)
        | _ => exact otherKnows
    · obtain ⟨generated, small, earlier, nextKnows⟩ := generateStep_kept
        distinct seeded.generated seeded.small knows
          fun wanted isTruncate => truncates ⟨wanted, isTruncate⟩
      refine seeded.update generated small ?_ ?_
      · rintro _ ⟨⟩
        rcases goesOn with rfl | ⟨error, rfl⟩
        · exact nextKnows
        · trivial
      · exact fun _ _ _ _ otherKnows => otherKnows.mono earlier.length_le
  cases fault with
  | refused message =>
      refine seeded.update seeded.generated seeded.small ?_
        fun _ _ _ _ otherKnows => otherKnows
      rintro _ ⟨⟩
      trivial
  | lost message => exact effect _ (.inr ⟨_, rfl⟩)
  | none | keeping => exact effect _ (.inl rfl)

theorem Seeded.step (distinct : library.DistinctUpTo bound)
    (allowed : SeedingAllowed bound config event)
    (stepEq : (seedMachine library).step config event = some next)
    (seeded : Seeded library bound config) : Seeded library bound next := by
  cases event with
  | env change => cases change
  | act index action =>
      obtain ⟨shared, proc, actEq, rfl⟩ := Network.step_act_iff.mp stepEq
      have acts : seedAct library config.shared (config.procs index) action =
          some (shared, proc) := actEq
      cases here : config.procs index with
      | idle =>
          rw [here] at acts
          cases action with
          | start options =>
              obtain ⟨rfl, rfl⟩ := Prod.mk.inj (Option.some.inj acts)
              refine seeded.update seeded.generated seeded.small ?_
                fun _ _ _ _ knows => knows
              rintro _ ⟨⟩
              have within : options.target ≤ bound := allowed
              rw [SeedOptions.begin]
              split <;> exact within
          | _ => cases acts
      | generating pc =>
          rw [here] at acts
          cases action with
          | start options => cases acts
          | crash =>
              obtain ⟨_, same⟩ := Option.ite_none_left_eq_some.mp acts
              obtain ⟨rfl, rfl⟩ := Prod.mk.inj (Option.some.inj same)
              refine seeded.update seeded.generated seeded.small ?_
                fun _ _ _ _ knows => knows
              rintro _ ⟨⟩
              trivial
          | call fault =>
              obtain ⟨_, same⟩ := Option.ite_none_left_eq_some.mp acts
              obtain ⟨rfl, rfl⟩ := Prod.mk.inj (Option.some.inj same)
              exact seeded.call distinct here fault allowed

theorem seeded_unseeded (initial : Unseeded source) :
    Seeded library bound source where
  generated := by
    rw [initial.noRows]
    exact .nil
  small := by simp [initial.noRows]
  knows index pc here := by
    rw [initial.idle index] at here
    cases here

theorem seeded_history (distinct : library.DistinctUpTo bound)
    (initial : Unseeded source)
    (history : (seedMachine library).Exec (SeedingAllowed bound) source events
      target) : Seeded library bound target :=
  history.invariant (Seeded.step distinct) (seeded_unseeded initial)

/-- Generators may run side by side, fail at any call and die: the table holds
the records of the first indices, each of them once and in the order of their
ids, and their external ids are UUIDs. -/
theorem seeded_consecutive (library : SeedLibrary) {bound : Nat}
    (digests : ∀ index < bound, isDigest (library.sha256Hex
      ("exportvault-record-" ++ toString index)) = true)
    (distinct : library.DistinctUpTo bound) (initial : Unseeded source)
    (history : (seedMachine library).Exec (SeedingAllowed bound) source events
      target) :
    let rows := target.shared.table.rows
    rows.length ≤ bound ∧ Generated library rows ∧
      rows.map RawRecordRow.externalId =
        (List.range rows.length).map (deterministicUuid library) ∧
      ∀ row ∈ rows, isUuid row.externalId = true := by
  intro rows
  have seeded : Seeded library bound target :=
    seeded_history distinct initial history
  have small : rows.length ≤ bound := seeded.small
  have ids : rows.map RawRecordRow.externalId =
      (List.range rows.length).map (deterministicUuid library) := by
    refine List.ext_getElem (by simp) fun index inside _ => ?_
    rw [List.length_map] at inside
    obtain ⟨position, isRecord⟩ := seeded.generated index _
      (List.getElem?_eq_getElem inside)
    rw [List.getElem_map, List.getElem_map, List.getElem_range, isRecord]
    rfl
  refine ⟨small, seeded.generated, ids, fun row member => ?_⟩
  have listed : row.externalId ∈ rows.map RawRecordRow.externalId :=
    List.mem_map_of_mem member
  rw [ids] at listed
  obtain ⟨index, inRange, isId⟩ := List.mem_map.mp listed
  have inside := List.mem_range.mp inRange
  rw [← isId]
  exact isUuid_deterministicUuid (digests index (by omega))

/-- Whatever the generators before it have left, a generator that meets nobody
brings the table to its target: it adds what is missing behind the rows there
are, its checks pass, and an export of as many records is accepted. -/
theorem seeding_completes (library : SeedLibrary) {bound : Nat}
    (distinct : library.DistinctUpTo bound) (initial : Unseeded source)
    (history : (seedMachine library).Exec (SeedingAllowed bound) source events
      target) {index wanted : Nat} (idle : target.procs index = .idle)
    (within : wanted ≤ bound)
    (room : target.shared.nextval + wanted ≤ 9223372036854775808) :
    let rows := target.shared.table.rows
    ∃ count finished,
      (seedMachine library).Exec (fun _ _ => True) target
        (.act index (.start ⟨wanted, false⟩) ::
          List.replicate count (.act index (.call .none))) finished ∧
      finished.procs index = .generating
        (.returned (wanted - rows.length) (max rows.length wanted)) ∧
      finished.shared.table.rows.length = max rows.length wanted ∧
      rows <+: finished.shared.table.rows ∧
      Generated library finished.shared.table.rows ∧
      (wanted : Int) ≤ countRecordsWithinSnapshot finished.shared.table
        (captureSnapshotMaxId finished.shared.table) := by
  intro rows
  have seeded : Seeded library bound target :=
    seeded_history distinct initial history
  obtain ⟨after, seeds, count, soloEq⟩ :=
    generates_count distinct seeded.generated within room
  have length : after.table.rows.length = max rows.length wanted :=
    seeds.length
  let finished : Config SeedTable SeedProc :=
    ⟨after, Function.update target.procs index (.generating
      (.returned (wanted - rows.length) (max rows.length wanted)))⟩
  have starts : (seedNetwork library).solo index target.shared
      (target.procs index)
      (.start ⟨wanted, false⟩ :: List.replicate count (.call .none)) =
        some (finished.shared, .generating
          (.returned (wanted - rows.length) (max rows.length wanted))) := by
    rw [idle]
    exact soloEq index
  have counted : countRecordsWithinSnapshot finished.shared.table
      (captureSnapshotMaxId finished.shared.table) =
        finished.shared.table.rows.length := by
    rw [countRecordsWithinSnapshot, List.countP_eq_length.mpr]
    exact fun row member => decide_eq_true (le_captureSnapshotMaxId member)
  refine ⟨count, finished, ?_, Function.update_self .., length, seeds.earlier,
    seeds.generated, ?_⟩
  · have execution : (seedMachine library).Exec (fun _ _ => True) target
        ((.start ⟨wanted, false⟩ ::
          List.replicate count (SeedAction.call .none)).map (.act index))
        finished := Network.exec_solo (fun _ _ _ => trivial) starts
    rwa [List.map_cons, List.map_replicate] at execution
  · rw [counted, show finished.shared.table.rows.length =
      max rows.length wanted from length]
    omega

end Histories

/-- The digits of the index, before the places a UUID does not use. -/
def smallSeedLibrary : SeedLibrary where
  sha256Hex text :=
    padStart (String.ofList (text.toList.drop 19)) 32 '0' ++
      String.ofList (List.replicate 32 '0')
  person position := ("Ada" ++ toString position, "Byron")

def noRecords : Config SeedTable SeedProc where
  shared := .truncated
  procs _ := .idle

theorem unseeded_noRecords : Unseeded noRecords :=
  ⟨rfl, fun _ => rfl⟩

theorem distinctUpTo_smallSeedLibrary :
    smallSeedLibrary.DistinctUpTo 4 := by
  have separated : ∀ first < 4, ∀ second < 4,
      deterministicUuid smallSeedLibrary first =
        deterministicUuid smallSeedLibrary second → first = second := by
    decide +kernel
  exact fun first second low high => separated first low second high

/-- `SeedingAllowed`, where no generator resets the table. -/
def seedingAllowed (bound : Nat) (config : Config SeedTable SeedProc) :
    Event SeedAction Empty → Bool
  | .act _ (.start options) => options.target ≤ bound
  | .act index (.call _) =>
      match config.procs index with
      | .generating (.truncate _) => false
      | _ => true
  | _ => true

theorem seedingAllowed_sound {bound : Nat}
    {config : Config SeedTable SeedProc} {event : Event SeedAction Empty}
    (passes : seedingAllowed bound config event = true) :
    SeedingAllowed bound config event := by
  cases event with
  | env change => cases change
  | act index action =>
      cases action with
      | start options =>
          have within : options.target ≤ bound := of_decide_eq_true passes
          exact within
      | crash => trivial
      | call fault =>
          intro target truncates
          simp only [seedingAllowed, truncates] at passes
          cases passes

/-- Two generators count an empty table; the second one's rows are there
already when it inserts, but for the last one. -/
def racingGenerators : List (Event SeedAction Empty) :=
  [.act 0 (.start ⟨2, false⟩), .act 1 (.start ⟨3, false⟩),
    .act 0 (.call .none), .act 1 (.call .none), .act 0 (.call .none),
    .act 1 (.call .none)]

theorem racingGenerators_end :
    ∃ target, (seedMachine smallSeedLibrary).Exec (SeedingAllowed 4)
        noRecords racingGenerators target ∧
      target.shared.table.rows.length = 3 ∧ target.shared.nextval = 6 ∧
      target.procs 1 = .generating (.threw (insertMismatch 0 3 1)) ∧
      target.procs 2 = .idle := by
  have accepted : ((seedMachine smallSeedLibrary).runChecked
      (seedingAllowed 4) noRecords racingGenerators).any (fun target =>
        decide (target.shared.table.rows.length = 3 ∧
          target.shared.nextval = 6 ∧
          target.procs 1 = .generating (.threw (insertMismatch 0 3 1)) ∧
          target.procs 2 = .idle)) = true := by decide +kernel
  obtain ⟨target, runEq, ends⟩ := Machine.exists_of_any_runChecked accepted
  exact ⟨target, Machine.exec_of_runChecked (fun _ => True)
    (fun _ passes => seedingAllowed_sound passes) (fun _ _ _ => trivial)
    trivial runEq, of_decide_eq_true ends⟩

/-- One of the two has failed; the three records are there. -/
theorem seeded_consecutive_racing :
    ∃ target, (seedMachine smallSeedLibrary).Exec (SeedingAllowed 4)
        noRecords racingGenerators target ∧
      target.procs 1 = .generating (.threw (insertMismatch 0 3 1)) ∧
      target.shared.table.rows.map RawRecordRow.externalId =
        (List.range 3).map (deterministicUuid smallSeedLibrary) := by
  obtain ⟨target, history, length, _, failed, _⟩ := racingGenerators_end
  obtain ⟨_, _, ids, _⟩ := seeded_consecutive smallSeedLibrary
    (by decide +kernel) distinctUpTo_smallSeedLibrary unseeded_noRecords history
  rw [length] at ids
  exact ⟨target, history, failed, ids⟩

/-- Another generator then brings the table to four records. -/
theorem seeding_completes_racing :
    ∃ events finished, (seedMachine smallSeedLibrary).Exec (fun _ _ => True)
        noRecords (racingGenerators ++ events) finished ∧
      finished.procs 2 = .generating (.returned 1 4) ∧
      finished.shared.table.rows.length = 4 := by
  obtain ⟨target, history, length, nextval, _, idle⟩ := racingGenerators_end
  obtain ⟨count, finished, execution, returned, all, _⟩ := seeding_completes
    smallSeedLibrary distinctUpTo_smallSeedLibrary unseeded_noRecords history
    idle (show 4 ≤ 4 by decide) (by rw [nextval]; decide)
  rw [length] at returned all
  exact ⟨_, finished, Machine.exec_append.mpr
    ⟨target, history.mono fun _ => trivial, execution⟩, returned, all⟩

end ExportVault
