import Mathlib.Data.List.Basic
import RecordModel.Connection.Basic
import RecordModel.Proofs.Number.Digits

/-!
# Connection strings that read back

PostgreSQL's client library takes a connection as pairs `key=value` with blanks between them. A
value that is empty or holds a blank stands between single quotes, and a backslash in front of a
character makes it stand for itself. Here is the reader of that grammar, one character at a time,
and what it makes of the string of a connection.

A connection is written with its values as they are. Reading has to lose at least a character for
each quote, backslash or blank that it takes out of a value, and a string that is one pair behind
the other has no character to lose. So the pairs are read back if and only if each value is bare.

Results:
* `Connection.readFrom_cost`: what is read is no longer than the text, and as long as it only where
  all values are bare.
* `Connection.readPairs_join`: bare values are read back.
* `Connection.readPairs_text`: the pairs of a connection are read back just where they are bare.
-/
namespace RecordModel.Connection

open RecordModel.Text RecordModel.Number RecordModel.Sql

/-! ## The grammar -/

/-- A space, or a tab, line feed, vertical tab, form feed or carriage return. -/
def isSeparator (c : Char) : Bool := c == ' ' || (9 ≤ c.toNat && c.toNat ≤ 13)

abbrev Pair := String × String

/-- Where the reader of connection strings is, and what it has read of a key and of its value. -/
inductive Reader where
  /-- In front of a key. -/
  | start
  | key (k : List Char)
  /-- Behind a key, in front of its equals sign. -/
  | keyEnd (k : List Char)
  | beforeValue (k : List Char)
  | bare (k v : List Char)
  /-- Behind a backslash. -/
  | bareEscape (k v : List Char)
  | quoted (k v : List Char)
  | quotedEscape (k v : List Char)
  /-- Behind a closing quote. -/
  | closed

namespace Reader

/-- The pair of a key and its value. -/
def pairOf (k v : List Char) : Pair := (String.ofList k, String.ofList v)

/-- What a character does: where the reader goes, and the pair that is complete by it. A quote is
special only at either end of a value. -/
def step : Reader → Char → Option (Reader × List Pair)
  | start, c =>
    if isSeparator c then some (start, [])
    else if c = '=' then none
    else some (key [c], [])
  | key k, c =>
    if c = '=' then some (beforeValue k, [])
    else if isSeparator c then some (keyEnd k, [])
    else some (key (k ++ [c]), [])
  | keyEnd k, c =>
    if c = '=' then some (beforeValue k, [])
    else if isSeparator c then some (keyEnd k, [])
    else none
  | beforeValue k, c =>
    if isSeparator c then some (beforeValue k, [])
    else if c = '\x27' then some (quoted k [], [])
    else if c = '\\' then some (bareEscape k [], [])
    else some (bare k [c], [])
  | bare k v, c =>
    if isSeparator c then some (start, [pairOf k v])
    else if c = '\\' then some (bareEscape k v, [])
    else some (bare k (v ++ [c]), [])
  | bareEscape k v, c => some (bare k (v ++ [c]), [])
  | quoted k v, c =>
    if c = '\x27' then some (closed, [pairOf k v])
    else if c = '\\' then some (quotedEscape k v, [])
    else some (quoted k (v ++ [c]), [])
  | quotedEscape k v, c => some (quoted k (v ++ [c]), [])
  | closed, c => if isSeparator c then some (start, []) else none

/-- What the end of the text completes. -/
def finish : Reader → Option (List Pair)
  | start => some []
  | bare k v => some [pairOf k v]
  | closed => some []
  | _ => none

end Reader

/-- The pairs that are read from a text on. -/
def readFrom (r : Reader) : List Char → Option (List Pair)
  | [] => r.finish
  | c :: cs => do
    let (r, done) ← r.step c
    let rest ← readFrom r cs
    return done ++ rest

/-- The pairs of a connection string. -/
def readPairs (s : String) : Option (List Pair) := readFrom .start s.toList

example : readPairs "host=db  password='it\\'s = a secret' user=a\\ b" =
    some [("host", "db"), ("password", "it's = a secret"), ("user", "a b")] := by decide +kernel

/-- A value that stands for itself: it is not empty, does not start with a quote, and holds no
blank and no backslash. -/
structure IsBare (v : String) : Prop where
  filled : v ≠ ""
  unquoted : v.toList.head? ≠ some '\x27'
  plain : ∀ c ∈ v.toList, isSeparator c = false ∧ c ≠ '\\'

/-- A key that stands for itself. -/
structure IsKey (k : String) : Prop where
  filled : k ≠ ""
  plain : ∀ c ∈ k.toList, isSeparator c = false ∧ c ≠ '='

-- by `List.all`, because a statement on all characters may be decided by trying every character
instance (v : String) : Decidable (IsBare v) :=
  decidable_of_iff (v ≠ "" ∧ v.toList.head? ≠ some '\x27' ∧
      (v.toList.all fun c => !isSeparator c && c != '\\') = true)
    ⟨fun ⟨filled, unquoted, plain⟩ => ⟨filled, unquoted, by simpa using plain⟩,
      fun h => ⟨h.1, h.2, by simpa using h.3⟩⟩

instance (k : String) : Decidable (IsKey k) :=
  decidable_of_iff (k ≠ "" ∧ (k.toList.all fun c => !isSeparator c && c != '=') = true)
    ⟨fun ⟨filled, plain⟩ => ⟨filled, by simpa using plain⟩, fun h => ⟨h.1, by simpa using h.2⟩⟩

/-! ## Nothing is read that is not there -/

/-- The length of pairs with an equals sign in each and a blank behind each. -/
def cost : List Pair → Nat
  | [] => 0
  | p :: ps => p.1.length + p.2.length + 2 + cost ps

namespace Reader

/-- The characters that are accounted for by what the reader has read. -/
def weight : Reader → Nat
  | start => 0
  | key k => k.length
  | keyEnd k => k.length
  | beforeValue k => k.length + 1
  | bare k v => k.length + 1 + v.length
  | bareEscape k v => k.length + 1 + v.length
  | quoted k v => k.length + 1 + v.length
  | quotedEscape k v => k.length + 1 + v.length
  | closed => 0

/-- Nothing has been read but what stands for itself. -/
def Plain : Reader → Prop
  | start | key _ | beforeValue _ => True
  | bare _ v => IsBare (String.ofList v)
  | _ => False

variable {r s : Reader} {c : Char} {done : List Pair} {k v : List Char}

theorem cost_nil : cost [] = 0 := rfl

theorem cost_append (ps qs : List Pair) : cost (ps ++ qs) = cost ps + cost qs := by
  induction ps with
  | nil => rw [List.nil_append, cost_nil, Nat.zero_add]
  | cons p ps ih =>
    rw [List.cons_append, cost, cost, ih]
    exact (Nat.add_assoc ..).symm

theorem cost_pairOf (k v : List Char) : cost [pairOf k v] = k.length + v.length + 2 := by
  simp [cost, pairOf]

/-- A character adds at most itself to what is accounted for. -/
theorem step_cost (h : r.step c = some (s, done)) : cost done + s.weight ≤ r.weight + 1 := by
  cases r <;> simp only [step] at h <;> (repeat' split at h) <;> cases h <;>
    simp only [weight, cost_nil, cost_pairOf, List.length_append, List.length_singleton,
      List.length_nil] <;>
    omega

theorem isBare_singleton (hblank : isSeparator c = false) (hquote : c ≠ '\x27')
    (hescape : c ≠ '\\') : IsBare (String.ofList [c]) where
  filled := by simp [← String.toList_inj]
  unquoted := by simpa using hquote
  plain := by simpa using ⟨hblank, hescape⟩

theorem isBare_snoc (h : IsBare (String.ofList v)) (hblank : isSeparator c = false)
    (hescape : c ≠ '\\') : IsBare (String.ofList (v ++ [c])) where
  filled := by simp [← String.toList_inj]
  unquoted := by
    have hfilled : v ≠ [] := by simpa [← String.toList_inj] using h.filled
    have hhead := h.unquoted
    rw [String.toList_ofList] at hhead ⊢
    rwa [List.head?_append_of_ne_nil _ hfilled]
  plain := by
    have hplain := h.plain
    rw [String.toList_ofList] at hplain ⊢
    intro x hx
    rcases List.mem_append.1 hx with hx | hx
    · exact hplain x hx
    · obtain rfl := List.mem_singleton.1 hx
      exact ⟨hblank, hescape⟩

/-- A character that is not lost is read as itself. -/
theorem step_plain (h : r.step c = some (s, done)) (hr : r.Plain)
    (hcost : cost done + s.weight = r.weight + 1) : s.Plain ∧ ∀ p ∈ done, IsBare p.2 := by
  cases r with
  | keyEnd | bareEscape | quoted | quotedEscape | closed => exact hr.elim
  | start =>
    simp only [step] at h
    split at h
    · cases h
      simp [weight, cost_nil] at hcost
    · split at h
      · cases h
      · cases h
        exact ⟨trivial, nofun⟩
  | key k =>
    simp only [step] at h
    split at h
    · cases h
      exact ⟨trivial, nofun⟩
    · split at h
      · cases h
        simp [weight, cost_nil] at hcost
      · cases h
        exact ⟨trivial, nofun⟩
  | beforeValue k =>
    simp only [step] at h
    split at h
    · cases h
      simp [weight, cost_nil] at hcost
    · rename_i hblank
      split at h
      · cases h
        simp [weight, cost_nil] at hcost
      · rename_i hquote
        split at h
        · cases h
          simp [weight, cost_nil] at hcost
        · rename_i hescape
          cases h
          exact ⟨isBare_singleton (by simpa using hblank) hquote hescape, nofun⟩
  | bare k v =>
    simp only [step] at h
    split at h
    · cases h
      exact ⟨trivial, by simpa [pairOf, Plain] using hr⟩
    · rename_i hblank
      split at h
      · cases h
        simp [weight, cost_nil] at hcost
      · rename_i hescape
        cases h
        exact ⟨isBare_snoc hr (by simpa using hblank) hescape, nofun⟩

theorem finish_cost (h : r.finish = some done) : cost done ≤ r.weight + 1 := by
  cases r with
  | start | closed =>
    cases h
    rw [cost_nil]
    exact Nat.zero_le _
  | bare k v =>
    cases h
    rw [cost_pairOf, weight]
    omega
  | _ => cases h

theorem finish_plain (h : r.finish = some done) (hr : r.Plain)
    (hcost : cost done = r.weight + 1) : ∀ p ∈ done, IsBare p.2 := by
  cases r with
  | bare k v =>
    cases h
    simpa [pairOf, Plain] using hr
  | start =>
    cases h
    simp [weight, cost_nil] at hcost
  | _ => first | exact hr.elim | cases h

end Reader

theorem readFrom_cons {r : Reader} {c : Char} {cs : List Char} {ps : List Pair}
    (h : readFrom r (c :: cs) = some ps) :
    ∃ s done rest, r.step c = some (s, done) ∧ readFrom s cs = some rest ∧ ps = done ++ rest := by
  rw [readFrom] at h
  obtain ⟨⟨s, done⟩, hstep, h⟩ := Option.bind_eq_some_iff.1 h
  obtain ⟨rest, hrest, h⟩ := Option.bind_eq_some_iff.1 h
  cases h
  exact ⟨s, done, rest, hstep, hrest, rfl⟩

/-- What is read is at most as long as the text. -/
theorem readFrom_cost {r : Reader} {cs : List Char} {ps : List Pair}
    (h : readFrom r cs = some ps) : cost ps ≤ r.weight + cs.length + 1 := by
  induction cs generalizing r ps with
  | nil => exact Reader.finish_cost h
  | cons c cs ih =>
    obtain ⟨s, done, rest, hstep, hrest, rfl⟩ := readFrom_cons h
    have hdone := Reader.step_cost hstep
    have hbehind := ih hrest
    rw [Reader.cost_append, List.length_cons]
    omega

/-- What is as long as the text has bare values only. -/
theorem readFrom_bare {r : Reader} {cs : List Char} {ps : List Pair}
    (h : readFrom r cs = some ps) (hr : r.Plain) (hcost : cost ps = r.weight + cs.length + 1) :
    ∀ p ∈ ps, IsBare p.2 := by
  induction cs generalizing r ps with
  | nil => exact Reader.finish_plain h hr hcost
  | cons c cs ih =>
    obtain ⟨s, done, rest, hstep, hrest, rfl⟩ := readFrom_cons h
    have hdone := Reader.step_cost hstep
    have hbehind := readFrom_cost hrest
    rw [Reader.cost_append, List.length_cons] at hcost
    obtain ⟨hs, hbare⟩ := Reader.step_plain hstep hr (by omega)
    have hrestBare := ih hrest hs (by omega)
    intro p hp
    exact (List.mem_append.1 hp).elim (hbare p) (hrestBare p)

/-! ## Bare values are read -/

section Reading

variable {k v rest : List Char}

theorem readFrom_key (hk : ∀ c ∈ k, isSeparator c = false ∧ c ≠ '=') (front : List Char) :
    readFrom (.key front) (k ++ '=' :: rest) = readFrom (.beforeValue (front ++ k)) rest := by
  induction k generalizing front with
  | nil => simp [readFrom, Reader.step]
  | cons c k ih =>
    obtain ⟨hblank, hequals⟩ := hk c List.mem_cons_self
    have hrest := ih (fun x hx => hk x (List.mem_cons_of_mem _ hx)) (front ++ [c])
    simpa [readFrom, Reader.step, hblank, hequals] using hrest

theorem readFrom_value (hv : ∀ c ∈ v, isSeparator c = false ∧ c ≠ '\\') (front : List Char) :
    readFrom (.bare k front) (v ++ rest) = readFrom (.bare k (front ++ v)) rest := by
  induction v generalizing front with
  | nil => simp
  | cons c v ih =>
    obtain ⟨hblank, hescape⟩ := hv c List.mem_cons_self
    have hrest := ih (fun x hx => hv x (List.mem_cons_of_mem _ hx)) (front ++ [c])
    simpa [readFrom, Reader.step, hblank, hescape] using hrest

end Reading

theorem readFrom_pair {k v : String} (hk : IsKey k) (hv : IsBare v) (rest : List Char) :
    readFrom .start ((pair k v).toList ++ rest) = readFrom (.bare k.toList v.toList) rest := by
  have htext : (pair k v).toList ++ rest = k.toList ++ '=' :: (v.toList ++ rest) := by
    simp [pair]
  obtain ⟨a, as, has⟩ := List.exists_cons_of_ne_nil (mt String.toList_eq_nil_iff.1 hk.filled)
  obtain ⟨b, bs, hbs⟩ := List.exists_cons_of_ne_nil (mt String.toList_eq_nil_iff.1 hv.filled)
  have hkey := hk.plain
  have hvalue := hv.plain
  have hquote := hv.unquoted
  rw [has] at hkey
  rw [hbs] at hvalue hquote
  obtain ⟨⟨hkeyBlank, hkeyEquals⟩, hkeyRest⟩ := List.forall_mem_cons.1 hkey
  obtain ⟨⟨hvalueBlank, hvalueEscape⟩, hvalueRest⟩ := List.forall_mem_cons.1 hvalue
  have hunquoted : b ≠ '\x27' := by simpa using hquote
  calc readFrom .start ((pair k v).toList ++ rest)
      = readFrom (.key [a]) (as ++ '=' :: (v.toList ++ rest)) := by
        rw [htext, has]
        simp [readFrom, Reader.step, hkeyBlank, hkeyEquals]
    _ = readFrom (.beforeValue k.toList) (v.toList ++ rest) := by
        rw [readFrom_key hkeyRest, has]
        rfl
    _ = readFrom (.bare k.toList [b]) (bs ++ rest) := by
        rw [hbs]
        simp [readFrom, Reader.step, hvalueBlank, hunquoted, hvalueEscape]
    _ = readFrom (.bare k.toList v.toList) rest := by
        rw [readFrom_value hvalueRest, hbs]
        rfl

theorem pairOf_toList (k v : String) : Reader.pairOf k.toList v.toList = (k, v) := by
  simp [Reader.pairOf]

/-- Pairs one behind the other. -/
def pairsText (ps : List Pair) : String := join " " (ps.map fun p => pair p.1 p.2)

theorem readPairs_pairsText {ps : List Pair} (hne : ps ≠ []) (hkey : ∀ p ∈ ps, IsKey p.1)
    (hbare : ∀ p ∈ ps, IsBare p.2) : readPairs (pairsText ps) = some ps := by
  induction ps with
  | nil => exact absurd rfl hne
  | cons p ps ih =>
    have hk := hkey p List.mem_cons_self
    have hv := hbare p List.mem_cons_self
    cases ps with
    | nil =>
      have hread := readFrom_pair hk hv []
      rw [List.append_nil] at hread
      rw [readPairs, pairsText, List.map_singleton, join, hread, readFrom, Reader.finish,
        pairOf_toList]
    | cons q qs =>
      have hrest := ih (by simp) (fun x hx => hkey x (List.mem_cons_of_mem _ hx))
        (fun x hx => hbare x (List.mem_cons_of_mem _ hx))
      have hseparator : isSeparator ' ' = true := by decide
      have htext : (pairsText (p :: q :: qs)).toList =
          (pair p.1 p.2).toList ++ ' ' :: (pairsText (q :: qs)).toList := by
        simp [pairsText, join]
      rw [readPairs] at hrest ⊢
      rw [htext, readFrom_pair hk hv]
      simp [readFrom, Reader.step, hseparator, hrest, pairOf_toList]

/-- The length of pairs one behind the other. -/
theorem cost_pairsText {ps : List Pair} (hne : ps ≠ []) :
    cost ps = (pairsText ps).toList.length + 1 := by
  induction ps with
  | nil => exact absurd rfl hne
  | cons p ps ih =>
    cases ps with
    | nil =>
      simp [cost, pairsText, join, pair, String.length_toList]
      omega
    | cons q qs =>
      have hrest := ih (by simp)
      have htext : (pairsText (p :: q :: qs)).toList =
          (pair p.1 p.2).toList ++ ' ' :: (pairsText (q :: qs)).toList := by
        simp [pairsText, join]
      have hpair : (pair p.1 p.2).toList.length = p.1.length + p.2.length + 1 := by
        simp [pair, String.length_toList]
        omega
      rw [cost, hrest, htext, List.length_append, List.length_cons, hpair]
      omega

theorem cost_perm {ps qs : List Pair} (h : ps.Perm qs) : cost ps = cost qs := by
  induction h with
  | nil => rfl
  | cons p _ ih => rw [cost, cost, ih]
  | swap p q ps =>
    simp only [cost]
    omega
  | trans _ _ ih ih' => exact ih.trans ih'

/-! ## Connections -/

/-- What a connection says to the database: its host, port, database and what else is set. -/
def pairs (c : Connection) : List Pair :=
  [("host", c.host), ("port", natText c.port.toNat), ("dbname", c.database)]
    ++ (if c.user.isEmpty then [] else [("user", c.user)])
    ++ (if c.password.isEmpty then [] else [("password", c.password)])
    ++ c.sslmode.toList.map fun mode => ("sslmode", mode)

theorem text_eq_pairsText {c : Connection} (h : c.isSqlite = false) :
    c.text = pairsText c.pairs := by
  unfold text pairsText pairs pairUnlessEmpty
  rw [if_neg (by simp [h])]
  cases c.user.isEmpty <;> cases c.password.isEmpty <;> cases c.sslmode <;> rfl

theorem pairs_ne_nil (c : Connection) : c.pairs ≠ [] := by simp [pairs]

theorem isKey_of_mem_pairs {c : Connection} {p : Pair} (h : p ∈ c.pairs) : IsKey p.1 := by
  have hkeys : ∀ k ∈ ["host", "port", "dbname", "user", "password", "sslmode"], IsKey k := by
    decide +kernel
  have hall : c.pairs.map Prod.fst ⊆ ["host", "port", "dbname", "user", "password", "sslmode"] := by
    unfold pairs
    cases c.user.isEmpty <;> cases c.password.isEmpty <;> cases c.sslmode <;>
      simp
  exact hkeys _ (hall (List.mem_map_of_mem h))

/-- The pairs of a connection are read back from its string, in whatever order, just where each
value is bare. -/
theorem readPairs_text (c : Connection) (h : c.isSqlite = false) :
    (readPairs c.text = some c.pairs ↔ ∀ p ∈ c.pairs, IsBare p.2) ∧
    ∀ ps, readPairs c.text = some ps → ps.Perm c.pairs → ps = c.pairs := by
  have hread (hbare : ∀ p ∈ c.pairs, IsBare p.2) : readPairs c.text = some c.pairs := by
    rw [text_eq_pairsText h]
    exact readPairs_pairsText c.pairs_ne_nil (fun p hp => isKey_of_mem_pairs hp) hbare
  have hbare (ps : List Pair) (hps : readPairs c.text = some ps) (hperm : ps.Perm c.pairs) :
      ∀ p ∈ c.pairs, IsBare p.2 := by
    have hcost : cost ps = c.text.toList.length + 1 := by
      rw [cost_perm hperm, cost_pairsText c.pairs_ne_nil, text_eq_pairsText h]
    have hall := readFrom_bare hps trivial (by rw [hcost, Reader.weight, Nat.zero_add])
    exact fun p hp => hall p (hperm.mem_iff.2 hp)
  refine ⟨⟨fun hps => hbare _ hps (List.Perm.refl _), hread⟩, fun ps hps hperm => ?_⟩
  rw [hread (hbare ps hps hperm)] at hps
  exact (Option.some.inj hps).symm

/-- An equals sign and a quote inside a password are as they are. -/
theorem readPairs_text_bare :
    (⟨"postgres", "db", 5432, "shop", "bob", "a=b'c", none⟩ : Connection).isSqlite = false ∧
    readPairs (text ⟨"postgres", "db", 5432, "shop", "bob", "a=b'c", none⟩) =
      some [("host", "db"), ("port", "5432"), ("dbname", "shop"), ("user", "bob"),
        ("password", "a=b'c")] := by
  have hdriver : (⟨"postgres", "db", 5432, "shop", "bob", "a=b'c", none⟩ :
      Connection).isSqlite = false := by decide +kernel
  exact ⟨hdriver, (readPairs_text _ hdriver).1.2 (by decide +kernel)⟩

/-- A connection without a mode, and with a blank in its password. -/
def spaced : Connection := ⟨"postgres", "db", 5432, "shop", "bob", "p sslmode=disable", none⟩

/-- What stands behind the blank is read as a mode. -/
theorem readPairs_text_spaced :
    spaced.validate Drivers.standard = .ok () ∧ spaced.isSqlite = false ∧
    readPairs spaced.text ≠ some spaced.pairs ∧
    readPairs spaced.text =
      some [("host", "db"), ("port", "5432"), ("dbname", "shop"), ("user", "bob"),
        ("password", "p"), ("sslmode", "disable")] :=
  ⟨rfl, by decide +kernel⟩

end RecordModel.Connection
