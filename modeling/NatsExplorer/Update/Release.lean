import NatsExplorer.Update.Put

/-! What an update is checked against: versions, the names of the release files, and
checksums the release key signed (`internal/update/release.go`, `target.go`). -/
namespace NatsExplorer.Update
open Go

/-- Text that the release key signed. -/
class Signatures (Key : Type) where
  verify : Key → Str → Str → Bool

def maxAsset : Nat := 512 * 2 ^ 20
def sumsName : Str := "SHA256SUMS.txt".toList
def sigName : Str := "SHA256SUMS.txt.sig".toList

/-- A release file's name, before the version and after it. -/
def Kind.names : Kind → Str × Str
  | .appImage => ("nats-explorer-desktop-".toList, "-linux-x64.AppImage".toList)
  | .tarball => ("nats-explorer-desktop-".toList, "-linux-x64.tar.gz".toList)
  | .windows => ("nats-explorer-desktop-".toList, "-windows-x64.zip".toList)
  | .macApp => ("nats-explorer-desktop-".toList, "-macos-universal.zip".toList)

def asset (kind : Kind) (version : Str) : Str := kind.names.1 ++ version ++ kind.names.2

def isDigit (c : Char) : Bool := '0' ≤ c && c ≤ '9'

/-- What stands for the version is one. -/
def isVersion (v : Str) : Bool :=
  match v with
  | [] => false
  | first :: _ => isDigit first && v.all fun c => c ≠ '/' && c ≠ '\\' && c ≠ ' '

/-- The version in the name of a release file of this installation. -/
def versionOf (kind : Kind) (name : Str) : Option Str :=
  match strings.cutPrefix name kind.names.1 with
  | none => none
  | some v =>
    match strings.cutSuffix v kind.names.2 with
    | none => none
    | some v => if isVersion v then some v else none

/-- `strconv.Atoi` of digits alone, an error passed over. -/
def atoi (digits : Str) : Nat := min (digits.foldl (fun n c => 10 * n + (c.toNat - '0'.toNat)) 0) (2 ^ 63 - 1)

/-- Splits at dots and dashes and reads the leading digits of each part. -/
def versionParts (v : Str) : List Nat :=
  (((strings.trimPrefix v ['v']).splitOnP fun c => c = '.' || c = '-').filter (· ≠ [])).map fun p =>
    atoi (p.takeWhile isDigit)

/-- The first part that differs decides; one that is missing counts as zero. -/
def newerParts (a b : List Nat) : Bool :=
  match (List.range (max a.length b.length)).find? fun i => a.getD i 0 ≠ b.getD i 0 with
  | some i => b.getD i 0 < a.getD i 0
  | none => false

def newer (candidate current : Str) : Bool := newerParts (versionParts candidate) (versionParts current)

variable [Tables]

/-- The lines a `bufio.Scanner` gets through: it gives up at one that is too long. -/
def scanLines (data : Str) : List Str := (data.splitOn '\n').takeWhile fun line => byteLen line < 64 * 1024

/-- "<hex>  <name>", or "<hex> *<name>" for a file read in binary mode. -/
def parseLine (line : Str) : Option (Str × Str) :=
  match strings.fields line with
  | [sum, name] =>
    if byteLen sum = 64 then some (strings.trimPrefix name ['*'], strings.toLower sum) else none
  | _ => none

def parseSums (data : Str) : Map Str Str :=
  ((scanLines data).filterMap parseLine).foldl (fun out (name, sum) => out.insert name sum) ∅

/-- What the network answers: the newest release, small files, and downloads. -/
structure Net (C : Type) where
  latest : Except String (Str × List (Str × Str))
  get : Str → Except String Str
  download : Str → Except String C

structure Release where
  tag : Str
  version : Str
  assets : Map Str Str

namespace Net
variable {C : Type}

def newest (net : Net C) : Except String Release :=
  match net.latest with
  | .error e => .error ("asking for the newest release: " ++ e)
  | .ok (tag, assets) =>
    if tag = [] then .error "the newest release has no tag"
    else .ok {
      tag := tag
      version := strings.trimPrefix tag ['v']
      assets := assets.foldl (fun out (name, url) => out.insert name url) ∅ }

/-- A small file, at most `limit` bytes of it. -/
def small (net : Net C) (url : Str) (limit : Nat) : Except String Str :=
  if !strings.hasPrefix url "https://".toList then
    .error ("refusing a download over plain HTTP: " ++ String.ofList url)
  else
    match net.get url with
    | .error e => .error e
    | .ok data => if limit < byteLen data then .error (String.ofList url ++ " is larger than " ++ toString limit ++ " bytes")
      else .ok data

end Net

section Verify
variable {Key C : Type} [Signatures Key] [Packages C]

/-- The checksums, only when the release key signed them. -/
def verify (key : Option Key) (sums sig : Str) (what : String) : Except String (Map Str Str) :=
  match key with
  | none => .error "this build has no release key to check an update with"
  | some key =>
    if Signatures.verify key sums sig then .ok (parseSums sums)
    else .error (what ++ " do not carry the release key's signature")

def verifiedSums (key : Option Key) (net : Net C) (rel : Release) : Except String (Map Str Str) :=
  match rel.assets.lookup sumsName, rel.assets.lookup sigName with
  | some (c :: sumsURL), some (d :: sigURL) =>
    match net.small (c :: sumsURL) (2 ^ 20) with
    | .error e => .error ("downloading SHA256SUMS.txt: " ++ e)
    | .ok sums =>
      match net.small (d :: sigURL) (2 ^ 10) with
      | .error e => .error ("downloading SHA256SUMS.txt.sig: " ++ e)
      | .ok sig => verify key sums sig ("the checksums of release " ++ String.ofList rel.tag)
  | _, _ => .error ("release " ++ String.ofList rel.tag ++ " is not signed: install it by hand")

/-- A release file, once its SHA-256 is the one that is wanted. -/
def download (net : Net C) (url want : Str) : Except String C :=
  if !strings.hasPrefix url "https://".toList then
    .error ("refusing a download over plain HTTP: " ++ String.ofList url)
  else
    match net.download url with
    | .error e => .error e
    | .ok file =>
      if maxAsset < Packages.size file then .error (String.ofList url ++ " is larger than 512 MB")
      else if Packages.sum file ≠ want then
        .error ("the download's checksum is " ++ String.ofList (Packages.sum file) ++ ", the release lists " ++
          String.ofList want)
      else .ok file

/-- The file of a release for this installation. -/
def fetch (key : Option Key) (kind : Kind) (net : Net C) (rel : Release) : Except String C :=
  match verifiedSums key net rel with
  | .error e => .error e
  | .ok sums =>
    let name := asset kind rel.version
    match sums.lookup name with
    | none => .error ("the checksums of release " ++ String.ofList rel.tag ++ " do not list " ++ String.ofList name)
    | some want =>
      match rel.assets.lookup name with
      | none => .error ("release " ++ String.ofList rel.tag ++ " has no " ++ String.ofList name)
      | some url => download net url want

/-- A package that was brought along, with the version it is of. -/
def recognise (rt : Runtime) (key : Option Key) (kind : Kind) (current : Str) (pkg : Except String C) (sums sig : Str) :
    Except String (Str × C) :=
  match verify key sums sig "these checksums" with
  | .error e => .error e
  | .ok listed =>
    match pkg with
    | .error e => .error e
    | .ok file =>
      match (rt.range listed.entries).findSome? fun entry =>
          if entry.2 = Packages.sum file then versionOf kind entry.1 else none with
      | none => .error ("the package is not " ++ String.ofList (asset kind "<version>".toList) ++
          " of the release these checksums belong to")
      | some version =>
        if newer version current then .ok (version, file)
        else .error (String.ofList version ++ " is not newer than " ++ String.ofList current ++ ", which runs here")

/-- The release key signed checksums that list this file under the name of this version. -/
def Vouched (key : Option Key) (kind : Kind) (file : C) (version : Str) : Prop :=
  ∃ k sums sig, key = some k ∧ Signatures.verify k sums sig = true ∧
    (parseSums sums).lookup (asset kind version) = some (Packages.sum file)

variable {key : Option Key} {kind : Kind} {net : Net C} {rel : Release} {sums sig name version current : Str} {what : String}
  {listed : Map Str Str} {file : C} {pkg : Except String C} {rt : Runtime}

omit [Packages C] in
theorem verify_ok (signed : verify key sums sig what = .ok listed) :
    ∃ k, key = some k ∧ Signatures.verify k sums sig = true ∧ listed = parseSums sums := by
  unfold verify at signed
  cases key with
  | none => cases signed
  | some k =>
    dsimp only at signed
    split at signed
    · rename_i good
      exact ⟨k, rfl, good, (Except.ok.inj signed).symm⟩
    · cases signed

omit [Packages C] in
theorem verifiedSums_ok (signed : verifiedSums key net rel = .ok listed) :
    ∃ k sums sig, key = some k ∧ Signatures.verify k sums sig = true ∧ listed = parseSums sums := by
  unfold verifiedSums at signed
  split at signed
  · split at signed
    · cases signed
    · split at signed
      · cases signed
      · rename_i sums _ _ sig _
        obtain ⟨k, have_key, good, same⟩ := verify_ok signed
        exact ⟨k, sums, sig, have_key, good, same⟩
  · cases signed

omit [Tables] in
theorem download_sum {url want : Str} (done : download net url want = .ok file) : Packages.sum file = want := by
  unfold download at done
  split_ifs at done
  split at done
  · cases done
  · split_ifs at done with large wrong
    cases done
    exact not_not.mp wrong

/-- The way of an update from the network. -/
theorem fetch_vouched (done : fetch key kind net rel = .ok file) : Vouched key kind file rel.version := by
  unfold fetch at done
  cases signed : verifiedSums key net rel with
  | error e =>
    rw [signed] at done
    cases done
  | ok sums =>
    obtain ⟨k, text, sig, have_key, good, rfl⟩ := verifiedSums_ok signed
    rw [signed] at done
    dsimp only at done
    split at done
    · cases done
    · rename_i want found
      split at done
      · cases done
      · rw [← download_sum done] at found
        exact ⟨k, text, sig, have_key, good, found⟩

omit [Tables] [Signatures Key] [Packages C] in
/-- The version of a name is the one whose name it is. -/
theorem versionOf_asset (matched : versionOf kind name = some version) : name = asset kind version := by
  unfold versionOf at matched
  cases starts : strings.cutPrefix name kind.names.1 with
  | none =>
    rw [starts] at matched
    cases matched
  | some v =>
    rw [starts] at matched
    dsimp only at matched
    cases ends : strings.cutSuffix v kind.names.2 with
    | none =>
      rw [ends] at matched
      cases matched
    | some v' =>
      rw [ends] at matched
      dsimp only at matched
      split_ifs at matched
      cases matched
      rw [strings.cutPrefix_some starts, strings.cutSuffix_some ends]
      exact (List.append_assoc ..).symm

/-- The way of a package that was brought along. -/
theorem recognise_vouched (done : recognise rt key kind current pkg sums sig = .ok (version, file)) :
    Vouched key kind file version ∧ newer version current = true := by
  unfold recognise at done
  cases signed : verify key sums sig "these checksums" with
  | error e =>
    rw [signed] at done
    cases done
  | ok listed =>
    obtain ⟨k, have_key, good, rfl⟩ := verify_ok signed
    rw [signed] at done
    dsimp only at done
    split at done
    · cases done
    · split at done
      · cases done
      · rename_i found
        split_ifs at done with newest
        cases done
        refine ⟨⟨k, sums, sig, have_key, good, ?_⟩, newest⟩
        obtain ⟨entry, listed, matched⟩ := List.exists_of_findSome?_eq_some found
        split_ifs at matched with same
        rw [← versionOf_asset matched, ← same, ← Option.mem_def, AList.mem_lookup_iff]
        exact (rt.range_perm _).mem_iff.mp listed

end Verify
end NatsExplorer.Update
