/-
Which Interests the file server answers within the file.

The contract of the server for one printed Interest name (`AnswersWithin`): the announced number of packets of a file
is its length over 4096, rounded up, and a missing file is announced with no positive number; a request for a packet
of the file is answered with exactly that packet; any other data request is left unanswered; the length computed for
an answer lies between 0 and 4096.

Result `answersWithin_iff`: the handlers keep the contract for an Interest exactly when it is `Safe`:
- a number request names an existing file;
- a data request names an existing file that is empty, or asks for one of its packets, with the packet's end below
  2^32 (past it the offset has wrapped, and the answer is right only for a full packet that repeats the one there).

The rest are the failing kinds: a missing file (its size -1 is announced as 2^52 packets, and `fopen`'s NULL is used),
an index at or past the end (a negative length), a last component that is no index, and a wrapped offset.
-/
import NdnDash.Server.DasServer

namespace NdnDash.Das

open NdnDash.Text NdnDash.Slices

/-! ## The contract -/

/-- the name below the data keyword is a file path, a slash and the decimal packet index `s` -/
def PacketRequest (rest f : Str) (s : ℕ) : Prop :=
  ∃ d : Str, rest = f ++ '/' :: d ∧ d ≠ [] ∧ (∀ c ∈ d, c.isDigit = true) ∧ value d = s

/-- the contract for a number request -/
def AnswersNumber (srv : Server) (uri f : Str) : Prop :=
  match srv.file f with
  | some F => (onInterest srv uri).1 = .put (leBytes 8 (packets packetSegSize F.length))
  | none => ∀ content, (onInterest srv uri).1 = .put content → leValue content = 0

/-- the name asks for a packet of the existing file `F` -/
def InFile (srv : Server) (rest : Str) (s : ℕ) (F : Bytes) : Prop :=
  ∃ f, PacketRequest rest f s ∧ srv.file f = some F ∧ s < packets packetSegSize F.length

/-- the contract for a data request -/
structure AnswersData (srv : Server) (uri rest : Str) : Prop where
  packet : ∀ s F, InFile srv rest s F → (onInterest srv uri).1 = .put (slice packetSegSize s F)
  other : (¬ ∃ s F, InFile srv rest s F) → (onInterest srv uri).1 = .silent
  count : sizeOf srv (beforeLast '/' rest) ≠ 0 →
    0 ≤ nCount (sizeOf srv (beforeLast '/' rest)) (segNo uri) ∧
      nCount (sizeOf srv (beforeLast '/' rest)) (segNo uri) ≤ packetSegSize

/-- the contract for an Interest name under the two keywords -/
def AnswersWithin (srv : Server) (uri : Str) : Prop :=
  (∀ f, uri = strRequestNumber ++ f → AnswersNumber srv uri f) ∧
    ∀ rest, uri = strRequestData ++ rest → AnswersData srv uri rest

/-! ## The condition -/

/-- a data request the handler gets right -/
def SafeData (srv : Server) (rest : Str) : Prop :=
  ∃ F, srv.file (beforeLast '/' rest) = some F ∧ (F = [] ∨ ∃ f s, PacketRequest rest f s ∧ packetSegSize * s < F.length ∧
    (s + 1 < 2 ^ 20 ∨
      packetSegSize * (s + 1) ≤ F.length ∧ slice packetSegSize (s % 2 ^ 20) F = slice packetSegSize s F))

/-- an Interest the server gets right -/
def Safe (srv : Server) (uri : Str) : Prop :=
  (∀ f, uri = strRequestNumber ++ f → (srv.file f).isSome) ∧ ∀ rest, uri = strRequestData ++ rest → SafeData srv rest

/-! ## Arithmetic of the handlers -/

/-- **The announced number** of an existing file -/
theorem segNumber_eq {n : ℕ} (h : n < 2 ^ 63) : segNumber n = packets packetSegSize n := by
  have hq : ((n : ℤ) % 2 ^ 64).toNat = n := by omega
  have hr : (n : ℤ).tmod packetSegSize = ((n % 4096 : ℕ) : ℤ) := by
    rw [Int.tmod_eq_emod_of_nonneg (by omega)]; rfl
  rw [packets_eq_div _ _ (by decide), segNumber, hq, hr]
  change (if ((n % 4096 : ℕ) : ℤ) ≠ 0 then (n / 4096 + 1) % 2 ^ 64 else n / 4096) =
    n / 4096 + if n % 4096 = 0 then 0 else 1
  by_cases h0 : n % 4096 = 0
  · simp [h0]
  · rw [if_pos (by exact_mod_cast h0), if_neg h0]
    omega

/-- the size -1 of a missing file is announced as 2^52 packets -/
theorem segNumber_missing : segNumber (-1) = 2 ^ 52 := by decide

/-- the file offset wraps every 2^20 packets -/
theorem toNat_mul_packet (q : UInt32) : (q * 4096).toNat = packetSegSize * (q.toNat % 2 ^ 20) := by
  rw [UInt32.toNat_mul]
  change q.toNat * 4096 % 2 ^ 32 = 4096 * (q.toNat % 2 ^ 20)
  omega

/-- the length with the wraps of its two products spelled out -/
theorem nCount_eq (n : ℤ) (q : UInt32) :
    nCount n q = if n < (4096 * ((q.toNat + 1) % 2 ^ 20) : ℕ) then n - (4096 * (q.toNat % 2 ^ 20) : ℕ) else 4096 := by
  have h : ((q + 1) * 4096).toNat = 4096 * ((q.toNat + 1) % 2 ^ 20) := by
    rw [toNat_mul_packet, UInt32.toNat_add]
    change 4096 * ((q.toNat + 1) % 2 ^ 32 % 2 ^ 20) = _
    omega
  rw [nCount, h, toNat_mul_packet]
  rfl

theorem nCount_le (n : ℤ) (q : UInt32) : nCount n q ≤ packetSegSize := by
  rw [nCount_eq]
  change _ ≤ (4096 : ℤ)
  split_ifs <;> omega

theorem nCount_low {n s : ℕ} {q : UInt32} (hq : q.toNat = s % 2 ^ 32) (hs : packetSegSize * s < n)
    (hlow : s + 1 < 2 ^ 20) : nCount n q = (min packetSegSize (n - packetSegSize * s) : ℕ) := by
  simp only [packetSegSize] at *
  rw [nCount_eq, hq]
  split_ifs <;> omega

theorem nCount_high {n s : ℕ} {q : UInt32} (hq : q.toNat = s % 2 ^ 32) (hs : packetSegSize * s < n)
    (hhigh : ¬ s + 1 < 2 ^ 20) : nCount n q = packetSegSize := by
  simp only [packetSegSize] at *
  rw [nCount_eq, hq, if_neg (by omega)]
  rfl

theorem length_fread (F : Bytes) (pos n : ℕ) : (fread F pos n).length = n := by
  simp only [fread, List.length_append, List.length_replicate, List.length_take]
  omega

theorem fread_of_le {F : Bytes} {pos n : ℕ} (h : pos + n ≤ F.length) : fread F pos n = (F.drop pos).take n := by
  have : ((F.drop pos).take n).length = n := by simp; omega
  rw [fread]
  simp [this]

/-! ## The handlers by the file -/

theorem onInterest_number (srv : Server) (f : Str) :
    (onInterest srv (strRequestNumber ++ f)).1 = .put (leBytes 8 (segNumber (sizeOf srv f))) := by
  have h : strRequestNumber.isPrefixOf (strRequestNumber ++ f) = true :=
    List.isPrefixOf_iff_prefix.2 (List.prefix_append _ _)
  have hdrop : (strRequestNumber ++ f).drop strRequestNumber.length = f := List.drop_left
  simp only [onInterest, h, if_true, hdrop, onRequestSegNumber, (getFileSize_eq srv f).1]

theorem onInterest_data (srv : Server) (rest : Str) : onInterest srv (strRequestData ++ rest) =
    onRequestSegData srv rest (segNo (strRequestData ++ rest)) := by
  have h0 : strRequestNumber.isPrefixOf (strRequestData ++ rest) = false := rfl
  have h : strRequestData.isPrefixOf (strRequestData ++ rest) = true :=
    List.isPrefixOf_iff_prefix.2 (List.prefix_append _ _)
  have hdrop : (strRequestData ++ rest).drop strRequestData.length = rest := List.drop_left
  simp only [onInterest, h0, h, hdrop, if_true, Bool.false_eq_true, if_false]

/-- **The data handler, by the file.** -/
theorem onRequestSegData_eq (srv : Server) (name : Str) (q : UInt32) : (onRequestSegData srv name q).1 =
    match srv.file (beforeLast '/' name) with
    | none => .stopped
    | some F => if F = [] then .silent else if nCount F.length q < 0 then .stopped
        else .put (fread F (q * 4096).toNat (nCount F.length q).toNat) := by
  obtain ⟨h1, h2⟩ := getFileSize_eq srv (beforeLast '/' name)
  simp only [onRequestSegData, h1, h2, sizeOf]
  cases hF : srv.file (beforeLast '/' name) with
  | none => simp
  | some F =>
    cases F with
    | nil => simp
    | cons b F =>
      have hne : ((b :: F).length : ℤ) ≠ 0 := by simp; omega
      simp only [hne, if_false, reduceCtorEq]
      split_ifs <;> rfl

/-- a name is read back as the file and the index it was made of -/
theorem PacketRequest.cut {rest f : Str} {s : ℕ} (h : PacketRequest rest f s) :
    beforeLast '/' rest = f ∧ value (afterLast '/' rest) = s ∧ ∀ c ∈ afterLast '/' rest, c.isDigit = true := by
  obtain ⟨d, rfl, -, hd, rfl⟩ := h
  have hs : '/' ∉ d := notMem_of_digits hd rfl
  rw [beforeLast_append _ hs, afterLast_append _ hs]
  exact ⟨rfl, rfl, hd⟩

/-- an index below 2^63 is read modulo 2^32 -/
theorem segNo_of_packetRequest {rest f : Str} {s : ℕ} (h : PacketRequest rest f s) (hs : s < 2 ^ 63) :
    (segNo (strRequestData ++ rest)).toNat = s % 2 ^ 32 := by
  obtain ⟨d, rfl, -, hd, rfl⟩ := h
  have hcut : afterLast '/' (strRequestData ++ (f ++ '/' :: d)) = d := by
    rw [← List.append_assoc, afterLast_append _ (notMem_of_digits hd rfl)]
  have hv : strtol d = (value d : ℤ) := by rw [strtol_of_digits hd]; omega
  have hmod : (value d : ℤ).bmod (2 ^ 32) % 2 ^ 32 = (value d % 2 ^ 32 : ℕ) := by
    rw [Int.bmod_def]
    push_cast
    split_ifs <;> omega
  rw [segNo, hcut, atoi, hv, toInt, UInt32.ofInt, hmod, Int.toNat_natCast, UInt32.toNat_ofNat']
  omega

theorem inFile_iff {srv : Server} {rest f : Str} {s : ℕ} {F : Bytes} (h : PacketRequest rest f s)
    (hF : srv.file f = some F) {s' : ℕ} {F' : Bytes} :
    InFile srv rest s' F' ↔ s' = s ∧ F' = F ∧ packetSegSize * s < F.length := by
  constructor
  · intro hin
    obtain ⟨f', h', hF', hlt⟩ := hin
    obtain ⟨rfl, rfl, -⟩ := h.cut
    obtain ⟨hf, rfl, -⟩ := h'.cut
    rw [← hf, hF] at hF'
    cases hF'
    exact ⟨rfl, rfl, (lt_packets (by decide)).1 hlt⟩
  · intro hin
    obtain ⟨rfl, rfl, hlt⟩ := hin
    exact ⟨f, h, hF, (lt_packets (by decide)).2 hlt⟩

/-! ## Main result -/

theorem answersNumber_iff (srv : Server) (f : Str) :
    AnswersNumber srv (strRequestNumber ++ f) f ↔ (srv.file f).isSome := by
  unfold AnswersNumber
  rw [onInterest_number, sizeOf]
  cases hF : srv.file f with
  | some F => simp [segNumber_eq (srv.disk.size_lt _ _ hF)]
  | none =>
    simp only [Option.isSome_none, Bool.false_eq_true, iff_false, not_forall]
    refine ⟨_, rfl, ?_⟩
    rw [segNumber_missing, leValue_leBytes (by decide)]
    decide

theorem put_of_safe {srv : Server} {rest f : Str} {s : ℕ} {F : Bytes} (h : PacketRequest rest f s)
    (hF : srv.file f = some F) (hs : packetSegSize * s < F.length)
    (hcond : s + 1 < 2 ^ 20 ∨
      packetSegSize * (s + 1) ≤ F.length ∧ slice packetSegSize (s % 2 ^ 20) F = slice packetSegSize s F) :
    (onInterest srv (strRequestData ++ rest)).1 = .put (slice packetSegSize s F) ∧
      0 ≤ nCount F.length (segNo (strRequestData ++ rest)) := by
  have hn := srv.disk.size_lt _ _ hF
  have hq := segNo_of_packetRequest h (by simp only [packetSegSize] at hs; omega)
  have hne : F ≠ [] := by rintro rfl; simp at hs
  rw [onInterest_data, onRequestSegData_eq, h.cut.1, hF]
  simp only [hne, if_false]
  have hwrap : s % 2 ^ 32 % 2 ^ 20 = s % 2 ^ 20 := by omega
  by_cases hlow : s + 1 < 2 ^ 20
  · rw [nCount_low hq hs hlow, if_neg (by omega), toNat_mul_packet, hq, Int.toNat_natCast, hwrap,
      Nat.mod_eq_of_lt (by omega)]
    refine ⟨?_, by omega⟩
    rw [fread_of_le (by omega), slice]
    conv_rhs => rw [List.take_eq_take_min, List.length_drop]
  · obtain ⟨hfull, hrep⟩ := hcond.resolve_left hlow
    rw [nCount_high hq hs hlow, if_neg (by omega), toNat_mul_packet, hq, Int.toNat_natCast, hwrap, ← hrep]
    refine ⟨?_, by omega⟩
    have : packetSegSize * (s % 2 ^ 20) ≤ packetSegSize * s := Nat.mul_le_mul_left _ (Nat.mod_le _ _)
    rw [fread_of_le (by rw [mul_add] at hfull; omega)]
    rfl

theorem not_silent {srv : Server} {rest : Str} {F : Bytes} (hF : srv.file (beforeLast '/' rest) = some F) (hne : F ≠ []) :
    (onInterest srv (strRequestData ++ rest)).1 ≠ .silent := by
  rw [onInterest_data, onRequestSegData_eq, hF]
  simp only [hne, if_false]
  split_ifs <;> simp

/-- past the wrap, the right answer is a full packet that repeats the one at the wrapped offset -/
theorem repeats_of_put {srv : Server} {rest f : Str} {s : ℕ} {F : Bytes} (h : PacketRequest rest f s)
    (hF : srv.file f = some F) (hs : packetSegSize * s < F.length) (hhigh : ¬ s + 1 < 2 ^ 20)
    (hput : (onInterest srv (strRequestData ++ rest)).1 = .put (slice packetSegSize s F)) :
    packetSegSize * (s + 1) ≤ F.length ∧ slice packetSegSize (s % 2 ^ 20) F = slice packetSegSize s F := by
  have hn := srv.disk.size_lt _ _ hF
  have hq := segNo_of_packetRequest h (by simp only [packetSegSize] at hs; omega)
  have hne : F ≠ [] := by rintro rfl; simp at hs
  have hwrap : s % 2 ^ 32 % 2 ^ 20 = s % 2 ^ 20 := by omega
  rw [onInterest_data, onRequestSegData_eq, h.cut.1, hF] at hput
  simp only [hne, if_false] at hput
  rw [nCount_high hq hs hhigh, if_neg (by omega), toNat_mul_packet, hq, Int.toNat_natCast, hwrap,
    Outcome.put.injEq] at hput
  have hlen := congrArg List.length hput
  rw [length_fread, length_slice] at hlen
  have hfull : packetSegSize * (s + 1) ≤ F.length := by rw [mul_add]; omega
  refine ⟨hfull, ?_⟩
  have : packetSegSize * (s % 2 ^ 20) ≤ packetSegSize * s := Nat.mul_le_mul_left _ (Nat.mod_le _ _)
  rw [← hput, fread_of_le (by rw [mul_add] at hfull; omega)]
  rfl

theorem answersData_iff (srv : Server) (rest : Str) :
    AnswersData srv (strRequestData ++ rest) rest ↔ SafeData srv rest := by
  constructor
  · intro h
    cases hF : srv.file (beforeLast '/' rest) with
    | none =>
      have hno : ¬ ∃ s F, InFile srv rest s F := by
        intro hin
        obtain ⟨s, F, f, hreq, hf, -⟩ := hin
        rw [hreq.cut.1, hf] at hF
        cases hF
      have := h.other hno
      rw [onInterest_data, onRequestSegData_eq, hF] at this
      simp at this
    | some F =>
      refine ⟨F, hF, ?_⟩
      by_cases hne : F = []
      · exact Or.inl hne
      · right
        obtain ⟨s, F', f, hreq, hf, hlt⟩ : ∃ s F, InFile srv rest s F := by
          by_contra hno
          exact not_silent hF hne (h.other hno)
        have hF' : F' = F := by rw [hreq.cut.1, hf] at hF; exact Option.some.inj hF
        subst hF'
        have hs := (lt_packets (by decide)).1 hlt
        refine ⟨f, s, hreq, hs, ?_⟩
        by_cases hlow : s + 1 < 2 ^ 20
        · exact Or.inl hlow
        · exact Or.inr (repeats_of_put hreq hf hs hlow (h.packet s F' ⟨f, hreq, hf, hlt⟩))
  · intro h
    rcases h with ⟨F, hF, rfl | ⟨f, s, hreq, hs, hcond⟩⟩
    · have hno : ∀ s F, ¬ InFile srv rest s F := by
        intro s F hin
        obtain ⟨f, hreq, hf, hlt⟩ := hin
        rw [hreq.cut.1, hf] at hF
        cases hF
        exact absurd ((lt_packets (by decide)).1 hlt) (by simp)
      refine ⟨fun s F h => absurd h (hno s F), fun _ => ?_, fun h0 => ?_⟩
      · rw [onInterest_data, onRequestSegData_eq, hF]; rfl
      · simp [sizeOf, hF] at h0
    · rw [hreq.cut.1] at hF
      obtain ⟨hput, hcount⟩ := put_of_safe hreq hF hs hcond
      refine ⟨fun s' F' h => ?_, fun hno => ?_, fun _ => ?_⟩
      · obtain ⟨rfl, rfl, -⟩ := (inFile_iff hreq hF).1 h
        exact hput
      · exact absurd ⟨s, F, (inFile_iff hreq hF).2 ⟨rfl, rfl, hs⟩⟩ hno
      · rw [hreq.cut.1]
        simp only [sizeOf, hF]
        exact ⟨hcount, nCount_le _ _⟩

/-- **Exactly the safe Interests are answered within the file.** -/
theorem answersWithin_iff (srv : Server) (uri : Str) : AnswersWithin srv uri ↔ Safe srv uri := by
  refine and_congr (forall_congr' fun f => ?_) (forall_congr' fun rest => ?_)
  · constructor <;> intro h hf <;> subst hf
    · exact (answersNumber_iff srv f).1 (h rfl)
    · exact (answersNumber_iff srv f).2 (h rfl)
  · constructor <;> intro h hr <;> subst hr
    · exact (answersData_iff srv rest).1 (h rfl)
    · exact (answersData_iff srv rest).2 (h rfl)

/-- a content directory `/d/` with the one file `a` of three bytes -/
def smallServer : Server where
  contentDir := "/d/".toList
  disk := ⟨fun p => if p = "/d/a".toList then some [1, 2, 3] else none, by
    intro p F h
    split_ifs at h
    cases h
    decide⟩
  mapFileSize := []
  cache_ok := by simp

/-- the number request for the missing file `b`, and packet 1 of the one-packet file `a` -/
def missingNumber : Str := strRequestNumber ++ ['b']

def pastEnd : Str := strRequestData ++ ['a', '/', '1']

/-- **One bad Interest stops the server.** Packet 1 of a three-byte file is given the length -4093 and ends the
process; a missing file is announced as 2^52 packets. -/
theorem past_end_stops : (onInterest smallServer pastEnd).1 = .stopped ∧ nCount 3 (segNo pastEnd) = -4093 ∧
    (onInterest smallServer missingNumber).1 = .put (leBytes 8 (2 ^ 52)) ∧
    ¬ ∀ srv uri, AnswersWithin srv uri := by
  refine ⟨by decide, by decide, by decide, fun h => ?_⟩
  have hcount := ((h smallServer pastEnd).2 ['a', '/', '1'] rfl).count (by decide)
  exact absurd hcount.1 (by decide)

end NdnDash.Das
