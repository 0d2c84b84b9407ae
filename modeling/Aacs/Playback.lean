import Aacs.Broadcast
import Aacs.KeyDbLookup
import Aacs.TitleKeys

/-!
# Playback

A disc from its files to its content: the volume unique key comes from a device key, through
the MKB, or from a database, under the hash of the unit key file. Either way it opens every
unit of the disc.
-/

/-- `disc_id = SHA-1(unit_key_file_bytes)`. -/
def Vuk.discIdFromUnitKeyFileBytes (bytes : List UInt8) : Bytes 20 := Sha1.sha1 bytes

def AacsVolume.resolveVukFromKeydb (_vol : AacsVolume) (keydb : KeyDb) (discId : Bytes 20) :
    Option Vuk :=
  keydb.vukForDisc discId

/-- What the content owner puts on a disc: the title keys stand in the unit key file, encrypted
under the volume unique key. -/
structure AuthoredDisc (aes : Aes128) where
  licence : Licence
  volumeId : Bytes 16
  titleKeys : List (Bytes 16)
  layout : UnitKeyLayout.File
  closed : layout.slots.map CpsUnitRecord.encryptedCpsUnitKey =
    titleKeys.map (aes.encrypt (AacsVolume.deriveVuk aes (licence.mediaKey aes) volumeId).bytes)

namespace AuthoredDisc

variable {aes : Aes128} (D : AuthoredDisc aes)

def vuk : Vuk := AacsVolume.deriveVuk aes (D.licence.mediaKey aes) D.volumeId

def discId : Bytes 20 := Vuk.discIdFromUnitKeyFileBytes D.layout.bytes

/-- The files of a disc, at their place or in the duplicate. -/
structure Mastered (discRoot : List String → Option (List UInt8)) : Prop where
  mkb : ∃ rs n, D.licence.Written aes rs ∧
    AacsVolume.readAacsFile discRoot "MKB_RO.inf" = .ok (Record.encode rs ++ List.replicate n 0)
  unitKeys : AacsVolume.readAacsFile discRoot "Unit_Key_RO.inf" = .ok D.layout.bytes

variable {D}

/-- The volume of a disc, with what is issued in its MKB. -/
theorem Mastered.openDisc {discRoot : List String → Option (List UInt8)} (h : D.Mastered discRoot) :
    ∃ mkb, D.licence.Carried aes mkb ∧
      AacsVolume.openDisc discRoot =
        .ok ⟨mkb, D.layout.parsed, AacsVolume.cpsUnitsOf D.layout.parsed⟩ := by
  obtain ⟨rs, n, hwritten, hread⟩ := h.mkb
  obtain ⟨mkb, hparse, hcarried⟩ := hwritten.parse n
  exact ⟨mkb, hcarried, AacsVolume.openDisc_of_files hread h.unitKeys hparse
    (UnitKeyLayout.parse_bytes D.layout)⟩

/-- A step that undoes another does so all along a list. -/
theorem mapM_mapM {α β : Type} {f : α → Result β} {g : β → Result α} {l : List α}
    (h : ∀ a ∈ l, ∃ b, f a = .ok b ∧ g b = .ok a) : (l.mapM f >>= fun bs => bs.mapM g) = .ok l := by
  induction l with
  | nil => rfl
  | cons a l ih =>
    obtain ⟨⟨b, hf, hg⟩, hl⟩ := List.forall_mem_cons.mp h
    obtain ⟨bs, hbs, hback⟩ := Outcome.bind_eq_ok.mp (ih hl)
    rw [List.mapM_cons, hf, Outcome.bind_ok, hbs, Outcome.bind_ok, Outcome.pure_eq, Outcome.bind_ok,
      List.mapM_cons, hg, Outcome.bind_ok, hback, Outcome.bind_ok, Outcome.pure_eq]

/-- A disc plays from a device key of every device that is not revoked, and from every database
that has its key under the hash of its unit key file: both give the key that opens the clips of all
its units. -/
theorem playback (hdecrypt : ∀ key data, aes.decrypt key (aes.encrypt key data) = data)
    (hsettled : D.licence.Settled aes) {discRoot : List String → Option (List UInt8)}
    (hdisc : D.Mastered discRoot) :
    ∃ vol opened, AacsVolume.openDisc discRoot = .ok vol ∧ vol.unwrapTitleKeys aes D.vuk =
      .ok opened ∧ (∀ d, (∃ s ∈ D.licence.subsets, s.Covers d) → ∃ s ∈ D.licence.subsets, ∃ k < 32,
        ∀ dk : DeviceKey, AacsVolume.dNode dk = d → dk.vMaskZeroBits.toNat = k →
          dk.key = (Subdiff.keyTree aes).heldKey s.root s.level d.toNat k →
            vol.deriveVukFromDeviceKeyWithKcd aes dk D.volumeId D.licence.kcd = .ok D.vuk) ∧
      (∀ (text : List Char) (db : KeyDb) (report : ParseReport),
        KeyDb.parseWithReport text = .ok (db, report) →
        KeyDb.vukOf (KeyDb.readRows (Text.lines text)) D.discId = some D.vuk →
          vol.resolveVukFromKeydb db D.discId = some D.vuk) ∧
      opened.cpsUnits.length = D.titleKeys.length ∧
      ∀ i key, D.titleKeys[i]? = some key → ∃ unit, opened.cpsUnits[i]? = some unit ∧
        unit.id.toNat = i + 1 ∧ ∀ clip : List (Bytes Content.alignedUnitSize),
          ((clip.mapM fun u => Content.encryptAlignedUnit aes key u.toList) >>= fun cs =>
            cs.mapM fun c => opened.decryptUnit aes unit c.toList) = .ok clip := by
  obtain ⟨mkb, hcarried, hopen⟩ := hdisc.openDisc
  have hunwrap :=
    @AacsVolume.unwrapTitleKeys_cpsUnitsOf aes hdecrypt D.vuk D.titleKeys D.layout.parsed
      D.closed mkb
  have hvol : D.licence.Carried aes
      (⟨mkb, D.layout.parsed, AacsVolume.cpsUnitsOf D.layout.parsed⟩ : AacsVolume).mkb := hcarried
  refine ⟨_, _, hopen, hunwrap, ?_, ?_, by simp [AacsVolume.unwrappedUnits], ?_⟩
  · intro d hcovered
    obtain ⟨s, hs, -, k, hk, -, hkm⟩ := hvol.deriveMediaKey hdecrypt hcovered
    refine ⟨s, hs, k, hk, ?_⟩
    intro dk hnode hz hkey
    exact hvol.deriveVuk hdecrypt hsettled (hkm dk hnode hz hkey) D.volumeId
  · intro text db report hparse hrows
    exact ((KeyDb.reflects_of_parse hparse).vukForDisc D.discId).trans hrows
  · intro i key hkey
    refine ⟨_, AacsVolume.unwrappedUnits_getElem? D.vuk hkey, ?_, ?_⟩
    · have hlen : D.layout.slots.length = D.titleKeys.length := by
        simpa using congrArg List.length D.closed
      have hi : i < D.titleKeys.length := (List.getElem?_eq_some_iff.mp hkey).1
      exact UInt16.toNat_ofNat_of_lt' (Nat.lt_of_le_of_lt (by omega) D.layout.numOfCpsUnit_lt)
    · intro clip
      apply mapM_mapM
      intro u _
      obtain ⟨c, hc, hu⟩ := Content.decrypt_encryptAlignedUnit hdecrypt key u
      exact ⟨c, hc, (AacsVolume.decryptUnit_of_titleKey _ rfl _).trans hu⟩

/-- The licence with two subsets, and two units whose key file is left in the duplicate only. -/
def twoUnitVolumeKey : Vuk :=
  AacsVolume.deriveVuk Aes128.fips197 (Licence.twoSubsets.mediaKey Aes128.fips197) (Bytes.zero 16)

def twoUnitDisc : AuthoredDisc Aes128.fips197 where
  licence := Licence.twoSubsets
  volumeId := Bytes.zero 16
  titleKeys := AacsVolume.twoUnitKeys
  layout :=
    { AacsVolume.twoUnitFile with
      slots := AacsVolume.twoUnitKeys.map fun key =>
        ⟨Bytes.zero 16, Bytes.zero 16, Aes128.encryptBlock twoUnitVolumeKey.bytes key⟩
      numOfCpsUnit_lt := by decide
      blockStart_aligned := by decide
      blockStart_lt := by decide }
  closed := rfl

def twoUnitRoot (path : List String) : Option (List UInt8) :=
  if path = ["AACS", "MKB_RO.inf"] then
    some (Record.encode (Licence.twoSubsets.records Aes128.fips197) ++ List.replicate 0 0)
  else if path = ["AACS", "DUPLICATE", "Unit_Key_RO.inf"] then some twoUnitDisc.layout.bytes
  else none

theorem twoUnitDisc_mastered : twoUnitDisc.Mastered twoUnitRoot :=
  ⟨⟨_, 0, Licence.twoSubsets.written_records Aes128.fips197, rfl⟩, rfl⟩

theorem playback_twoUnitDisc :
    ∃ vol opened, AacsVolume.openDisc twoUnitRoot = .ok vol ∧
      vol.unwrapTitleKeys Aes128.fips197 twoUnitDisc.vuk = .ok opened ∧
        opened.cpsUnits.length = 2 := by
  obtain ⟨vol, opened, hopen, hunwrap, -, -, hlen, -⟩ := playback Aes128.decryptBlock_encryptBlock
    Licence.settled_twoSubsets twoUnitDisc_mastered
  exact ⟨vol, opened, hopen, hunwrap, hlen⟩

end AuthoredDisc
