import Ethwasi.Rust.Bytes

/-!
# Data shared by the runtime and the gateway

The constants of the common crate and the fixed-size Ethereum types. Tag keys are byte
strings on the wire; they are written out so that their distinctness can be evaluated.
-/

namespace Ethwasi

open Ethwasi.Rust

/-- A 256-bit hash. -/
abbrev H256 := FixedBytes 32

/-- An account or contract address. -/
abbrev Address := FixedBytes 20

/-- `BLOCK_GAS_LIMIT`. -/
def blockGasLimit : Nat := 16000000

/-- `MIN_GAS_PRICE_GWEI`. -/
def minGasPriceGwei : Nat := 1

/-- `TAG_ETH_TX_HASH`, the bytes of `heth`. -/
def tagEthTxHash : Bytes := [0x68, 0x65, 0x74, 0x68]

/-- `TAG_ETH_LOG_ADDRESS`, the bytes of `ladd`. -/
def tagEthLogAddress : Bytes := [0x6c, 0x61, 0x64, 0x64]

/-- `TAG_ETH_LOG_TOPICS`, the bytes of `ltp1` to `ltp4`. -/
def tagEthLogTopics : List Bytes :=
  [[0x6c, 0x74, 0x70, 0x31], [0x6c, 0x74, 0x70, 0x32], [0x6c, 0x74, 0x70, 0x33],
    [0x6c, 0x74, 0x70, 0x34]]

end Ethwasi
