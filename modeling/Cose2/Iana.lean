import Cose2.Label

/-! # Registered numbers

The constants of `src/iana.rs` that the modelled functions use, each as the label
it is turned into; the algorithms of the built-in providers and the operations of a
key stay integers.
-/
namespace Cose2.Iana

/-! ### Header parameters -/

def headerParameterAlg : Label := .int 1
def headerParameterCrit : Label := .int 2
def headerParameterContentType : Label := .int 3
def headerParameterKid : Label := .int 4
def headerParameterIV : Label := .int 5
def headerParameterPartialIV : Label := .int 6
def headerParameterCounterSignature : Label := .int 7

/-! ### Header parameters of recipient algorithms -/

def headerAlgorithmParameterPartyUNonce : Label := .int (-22)
def headerAlgorithmParameterSalt : Label := .int (-20)
def headerAlgorithmParameterStaticKeyId : Label := .int (-3)
def headerAlgorithmParameterStaticKey : Label := .int (-2)
def headerAlgorithmParameterEphemeralKey : Label := .int (-1)

/-! ### Algorithms of recipients -/

def algorithmRSAES_OAEP_SHA_512 : Label := .int (-42)
def algorithmRSAES_OAEP_SHA_256 : Label := .int (-41)
def algorithmRSAES_OAEP_RFC_8017_default : Label := .int (-40)
def algorithmECDH_SS_A256KW : Label := .int (-34)
def algorithmECDH_SS_A192KW : Label := .int (-33)
def algorithmECDH_SS_A128KW : Label := .int (-32)
def algorithmECDH_ES_A256KW : Label := .int (-31)
def algorithmECDH_ES_A192KW : Label := .int (-30)
def algorithmECDH_ES_A128KW : Label := .int (-29)
def algorithmECDH_SS_HKDF_512 : Label := .int (-28)
def algorithmECDH_SS_HKDF_256 : Label := .int (-27)
def algorithmECDH_ES_HKDF_512 : Label := .int (-26)
def algorithmECDH_ES_HKDF_256 : Label := .int (-25)
def algorithmDirect_HKDF_AES_256 : Label := .int (-13)
def algorithmDirect_HKDF_AES_128 : Label := .int (-12)
def algorithmDirect_HKDF_SHA_512 : Label := .int (-11)
def algorithmDirect_HKDF_SHA_256 : Label := .int (-10)
def algorithmDirect : Label := .int (-6)
def algorithmA256KW : Label := .int (-5)
def algorithmA192KW : Label := .int (-4)
def algorithmA128KW : Label := .int (-3)

/-! ### Keys -/

def keyParameterKty : Label := .int 1
def keyParameterKid : Label := .int 2
def keyParameterAlg : Label := .int 3
def keyParameterKeyOps : Label := .int 4
def keyParameterBaseIV : Label := .int 5
def keyTypeOKP : Label := .int 1
def keyTypeEC2 : Label := .int 2
def keyTypeRSA : Label := .int 3
def keyTypeSymmetric : Label := .int 4
def symmetricKeyParameterK : Label := .int (-1)
def okpKeyParameterCrv : Label := .int (-1)
def okpKeyParameterX : Label := .int (-2)
def okpKeyParameterD : Label := .int (-4)
def ec2KeyParameterCrv : Label := .int (-1)
def ec2KeyParameterX : Label := .int (-2)
def ec2KeyParameterY : Label := .int (-3)
def ec2KeyParameterD : Label := .int (-4)
def rsaKeyParameterN : Label := .int (-1)
def rsaKeyParameterE : Label := .int (-2)
def rsaKeyParameterD : Label := .int (-3)
def rsaKeyParameterP : Label := .int (-4)
def rsaKeyParameterQ : Label := .int (-5)
def rsaKeyParameterDP : Label := .int (-6)
def rsaKeyParameterDQ : Label := .int (-7)
def rsaKeyParameterQInv : Label := .int (-8)
def ellipticCurveP_256 : Label := .int 1
def ellipticCurveP_384 : Label := .int 2
def ellipticCurveP_521 : Label := .int 3
def ellipticCurveX25519 : Label := .int 4
def ellipticCurveX448 : Label := .int 5
def ellipticCurveEd25519 : Label := .int 6
def keyOperationSign : Int64 := 1
def keyOperationVerify : Int64 := 2
def keyOperationEncrypt : Int64 := 3
def keyOperationDecrypt : Int64 := 4
def keyOperationMacCreate : Int64 := 9
def keyOperationMacVerify : Int64 := 10

/-! ### Algorithms of the built-in providers -/

def algorithmRS512 : Int64 := -259
def algorithmRS384 : Int64 := -258
def algorithmRS256 : Int64 := -257
def algorithmPS512 : Int64 := -39
def algorithmPS384 : Int64 := -38
def algorithmPS256 : Int64 := -37
def algorithmESP384 : Int64 := -51
def algorithmES384 : Int64 := -35
def algorithmEd25519 : Int64 := -19
def algorithmESP256 : Int64 := -9
def algorithmEdDSA : Int64 := -8
def algorithmES256 : Int64 := -7
def algorithmA128GCM : Int64 := 1
def algorithmA256GCM : Int64 := 3
def algorithmHMAC_256_64 : Int64 := 4
def algorithmHMAC_256_256 : Int64 := 5
def algorithmHMAC_384_384 : Int64 := 6
def algorithmHMAC_512_512 : Int64 := 7
def algorithmChaCha20Poly1305 : Int64 := 24

end Cose2.Iana
