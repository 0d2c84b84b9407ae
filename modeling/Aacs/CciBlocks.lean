import Aacs.Bitmap
import Aacs.UsageFileBytes

/-!
# Typed CCI blocks

Four types of block carry a structure of their own: the copy control bits with a
bitmap of the titles, the window of an enhanced title with its dates in decimal
digits, the binding of a unit key, and the output control bits. Each type has its
number, and each structure its length.
-/

open Outcome

inductive Cci where
  | copyControlNotAsserted | reservedNoMoreCopy | copyOneGeneration | neverCopy
  deriving DecidableEq, Repr

namespace Cci

def fromBits (bits : UInt8) : Cci :=
  if bits &&& 0x03 = 0b00 then .copyControlNotAsserted
  else if bits &&& 0x03 = 0b01 then .reservedNoMoreCopy
  else if bits &&& 0x03 = 0b10 then .copyOneGeneration
  else .neverCopy

def toBits : Cci → UInt8
  | copyControlNotAsserted => 0b00
  | reservedNoMoreCopy => 0b01
  | copyOneGeneration => 0b10
  | neverCopy => 0b11

end Cci

inductive TypeOfTitle where
  | basic | enhanced
  deriving DecidableEq, Repr

structure BasicCci where
  epnUnasserted : Bool
  cci : Cci
  imageConstraintToken : Bool
  digitalOnlyToken : Bool
  apstb : UInt8
  titleTypes : List TypeOfTitle
  deriving DecidableEq, Repr

namespace BasicCci

/-- The type of title `i`, the most significant bit of a byte first. -/
def titleType (bitmap : List UInt8) (i : Nat) : Result TypeOfTitle := do
  let byte ← index bitmap (i / 8)
  let bit := byte >>> UInt8.ofNat (7 - i % 8) &&& 1
  pure (if bit = 1 then .enhanced else .basic)

def parseData (data : List UInt8) : Result BasicCci := do
  refuseIf (data.length ≠ 0x84) (.invalidValue "Basic CCI data_length" data.length)
  let d₀ ← index data 0
  let d₁ ← index data 1
  let numOfTitle ← indexU16 data 2
  refuseIf (numOfTitle.toNat > 1024) (.invalidValue "Basic CCI Num_of_Title" numOfTitle.toNat)
  let bitmap ← sliceFrom data 4
  let titleTypes ← (List.range numOfTitle.toNat).mapM (titleType bitmap)
  pure {
    epnUnasserted := decide (d₀ &&& 0x04 ≠ 0)
    cci := Cci.fromBits d₀
    imageConstraintToken := decide (d₁ &&& 0x10 ≠ 0)
    digitalOnlyToken := decide (d₁ &&& 0x08 ≠ 0)
    apstb := d₁ &&& 0x07
    titleTypes := titleTypes }

/-- The titles from the `i`-th on: an enhanced one sets its bit. -/
def markTitles (data : List UInt8) : List TypeOfTitle → Nat → Result (List UInt8)
  | [], _ => pure data
  | t :: ts, i =>
    if t = .enhanced then do
      let byte ← index data (4 + i / 8)
      markTitles (data.set (4 + i / 8) (byte ||| 1 <<< UInt8.ofNat (7 - i % 8))) ts (i + 1)
    else markTitles data ts (i + 1)

/-- `data[0]`. -/
def copyBits (epnUnasserted : Bool) (cci : Cci) : UInt8 :=
  epnUnasserted.toUInt8 <<< 2 ||| cci.toBits

/-- `data[1]`. -/
def tokenBits (imageConstraintToken digitalOnlyToken : Bool) (apstb : UInt8) : UInt8 :=
  imageConstraintToken.toUInt8 <<< 4 ||| digitalOnlyToken.toUInt8 <<< 3 ||| apstb &&& 0x07

/-- The bits in front and the number of titles. -/
def header (b : BasicCci) : List UInt8 :=
  [copyBits b.epnUnasserted b.cci, tokenBits b.imageConstraintToken b.digitalOnlyToken b.apstb] ++
  u16ToBe (UInt16.ofNat b.titleTypes.length)

def toBlock (b : BasicCci) : Result CciAndOtherInfo := do
  let data ← markTitles (b.header ++ List.replicate 128 0) b.titleTypes 0
  pure ⟨0x0101, 0x0100, data⟩

end BasicCci

structure TitleDate where
  year : UInt16
  month : UInt8
  day : UInt8
  hour : UInt8
  minute : UInt8
  timezone : UInt8
  deriving DecidableEq, Repr

namespace TitleDate

/-- `TitleDate::default()`. -/
def default : TitleDate := ⟨0, 0, 0, 0, 0, 0⟩

def isUndefined (d : TitleDate) : Bool := decide (d = default)

/-- The nibbles of a byte. -/
def nib (b : UInt8) (hi : Bool) : UInt8 := if hi then b >>> 4 else b &&& 0x0F

/-- Two nibbles are at most 165, so that the sum stays in a byte. -/
def bcd2 (b : UInt8) : UInt8 := nib b true * 10 + nib b false

def parse (seven : List UInt8) : Result TitleDate := do
  let s₀ ← index seven 0
  let s₁ ← index seven 1
  let s₂ ← index seven 2
  let s₃ ← index seven 3
  let s₄ ← index seven 4
  let s₅ ← index seven 5
  let s₆ ← index seven 6
  let year := (nib s₀ true).toUInt16 * 1000 + (nib s₀ false).toUInt16 * 100 +
    (nib s₁ true).toUInt16 * 10 + (nib s₁ false).toUInt16
  pure ⟨year, bcd2 s₂, bcd2 s₃, bcd2 s₄, bcd2 s₅, s₆⟩

def toBcd2 (v : UInt8) : UInt8 := (v / 10) <<< 4 ||| v % 10

def toBytes (d : TitleDate) : List UInt8 :=
  let y := d.year % 10000
  [(y / 1000).toUInt8 <<< 4 ||| (y / 100 % 10).toUInt8,
    (y / 10 % 10).toUInt8 <<< 4 ||| (y % 10).toUInt8,
    toBcd2 d.month, toBcd2 d.day, toBcd2 d.hour, toBcd2 d.minute, d.timezone]

end TitleDate

inductive Cacheable where
  | cacheable | instant
  deriving DecidableEq, Repr

structure EnhancedTitleUsage where
  titleId : UInt16
  cacheable : Cacheable
  period : UInt16
  after : Option TitleDate
  before : Option TitleDate
  deriving DecidableEq, Repr

namespace EnhancedTitleUsage

/-- `(!date.is_undefined()).then_some(date)`. -/
def defined (d : TitleDate) : Option TitleDate := if d.isUndefined then none else some d

def parseData (data : List UInt8) : Result EnhancedTitleUsage := do
  refuseIf (data.length ≠ 0x20) (.invalidValue "Enhanced Title Usage data_length" data.length)
  let titleId ← indexU16 data 0
  let d₂ ← index data 2
  let period ← indexU16 data 3
  let afterBytes ← slice data 5 12
  let after ← TitleDate.parse afterBytes
  let beforeBytes ← slice data 12 19
  let before ← TitleDate.parse beforeBytes
  pure ⟨titleId, if d₂ &&& 0x01 = 0 then .cacheable else .instant, period, defined after,
    defined before⟩

/-- The fields stand one behind the other, and the rest of the 32 bytes is zero. -/
def toBlock (e : EnhancedTitleUsage) : CciAndOtherInfo :=
  ⟨0x0111, 0x0100,
    u16ToBe e.titleId ++ [if e.cacheable = .cacheable then 0 else 1] ++ u16ToBe e.period ++
      (e.after.getD TitleDate.default).toBytes ++ (e.before.getD TitleDate.default).toBytes ++
        List.replicate 13 0⟩

end EnhancedTitleUsage

inductive BindingType where
  | media | content | deviceContent | deviceMedia
  | reserved (v : UInt8)
  deriving DecidableEq, Repr

namespace BindingType

def fromU8 (v : UInt8) : BindingType :=
  if v = 0x01 then .media
  else if v = 0x02 then .content
  else if v = 0x03 then .deviceContent
  else if v = 0x04 then .deviceMedia
  else .reserved v

def toU8 : BindingType → UInt8
  | media => 0x01
  | content => 0x02
  | deviceContent => 0x03
  | deviceMedia => 0x04
  | reserved v => v

end BindingType

structure KeyManagementOnline where
  unitKeyStatus : UInt8
  bindingType : BindingType
  deriving DecidableEq, Repr

namespace KeyManagementOnline

def parseData (data : List UInt8) : Result KeyManagementOnline := do
  refuseIf (data.length ≠ 0x10) (.invalidValue "Key Management Online data_length" data.length)
  let d₀ ← index data 0
  let d₁ ← index data 1
  pure ⟨d₀, BindingType.fromU8 d₁⟩

def toBlock (k : KeyManagementOnline) : CciAndOtherInfo :=
  ⟨0x0112, 0x0100, [k.unitKeyStatus, k.bindingType.toU8] ++ List.replicate 14 0⟩

end KeyManagementOnline

structure ContentOwnerAuthorizedOutputs where
  outputControlBits : Bytes 16
  deriving DecidableEq

namespace ContentOwnerAuthorizedOutputs

def parseData (data : List UInt8) : Result ContentOwnerAuthorizedOutputs := do
  refuseIf (data.length ≠ 0x10) (.invalidValue "Content Owner Outputs data_length" data.length)
  let outputControlBits ← readArray 16 data 0
  pure ⟨outputControlBits⟩

def toBlock (o : ContentOwnerAuthorizedOutputs) : CciAndOtherInfo :=
  ⟨0x0113, 0x0100, o.outputControlBits.toList⟩

end ContentOwnerAuthorizedOutputs

namespace CciAndOtherInfo

def asBasicCci (b : CciAndOtherInfo) : Option (Result BasicCci) :=
  if b.infoType = 0x0101 then some (BasicCci.parseData b.data) else none

def asEnhancedTitleUsage (b : CciAndOtherInfo) : Option (Result EnhancedTitleUsage) :=
  if b.infoType = 0x0111 then some (EnhancedTitleUsage.parseData b.data) else none

def asKeyManagementOnline (b : CciAndOtherInfo) : Option (Result KeyManagementOnline) :=
  if b.infoType = 0x0112 then some (KeyManagementOnline.parseData b.data) else none

def asContentOwnerOutputs (b : CciAndOtherInfo) : Option (Result ContentOwnerAuthorizedOutputs) :=
  if b.infoType = 0x0113 then some (ContentOwnerAuthorizedOutputs.parseData b.data) else none

end CciAndOtherInfo
